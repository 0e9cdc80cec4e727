import UidGenerator.Spec.RingBuffer
import UidGenerator.Lib.RingQueue
import UidGenerator.Lib.Run
import UidGenerator.Proofs.Long

/-! A `RingBuffer` is a queue over its slots: put number `p` lives in slot
`p % bufferSize`. `Represents` is kept by every step, for sequences of any length,
as `tail` and `cursor` wrap at 64 bits. -/

namespace UID

open BitField RingQueue Transition

/-- One round of the loop on a word that is not zero. -/
theorem bitCountLoop_succ {rounds : ℕ} {x : ℤ} (h0 : 0 < x) (h : x < 2 ^ 32) (count : ℤ) :
    bitCountLoop (rounds + 1) x count = bitCountLoop rounds (x / 2) (count + x % 2) := by
  have hx : toUint32 x = x := Int.emod_eq_of_lt h0.le h
  have hand := land_two_pow_sub_one 1 x
  norm_num at hand
  rw [bitCountLoop, if_neg h0.ne', hx, hand]

theorem le_bitCountLoop {rounds : ℕ} (hr : rounds ≤ 32) {x : ℤ} (h0 : 0 ≤ x) (h : x < 2 ^ rounds)
    (count : ℤ) :
    count ≤ bitCountLoop rounds x count ∧ (0 < x → count < bitCountLoop rounds x count) := by
  induction rounds generalizing x count with
  | zero => exact ⟨le_rfl, fun hpos => by simp at h; omega⟩
  | succ rounds ih =>
    rcases h0.eq_or_lt with rfl | hpos
    · exact ⟨by simp [bitCountLoop], fun h => absurd h (lt_irrefl 0)⟩
    · rw [bitCountLoop_succ hpos (h.trans_le (pow_le_pow_right₀ (by norm_num) hr))]
      rw [pow_succ] at h
      obtain ⟨hle, hlt⟩ := ih (by omega) (x := x / 2) (by omega) (by omega) (count + x % 2)
      constructor
      · omega
      · intro _
        rcases Int.emod_two_eq_zero_or_one x with heven | hodd
        · have := hlt (by omega)
          omega
        · omega

/-- A word in which one bit is counted is a power of two. -/
theorem two_pow_of_bitCountLoop {rounds : ℕ} (hr : rounds ≤ 32) {x count : ℤ} (h0 : 0 < x)
    (h : x < 2 ^ rounds) (hcount : bitCountLoop rounds x count = count + 1) :
    ∃ k < rounds, x = 2 ^ k := by
  induction rounds generalizing x with
  | zero => simp at h; omega
  | succ rounds ih =>
    rw [bitCountLoop_succ h0 (h.trans_le (pow_le_pow_right₀ (by norm_num) hr))] at hcount
    rw [pow_succ] at h
    rcases Int.emod_two_eq_zero_or_one x with heven | hodd
    · rw [heven, add_zero] at hcount
      obtain ⟨k, hk, hx⟩ := ih (by omega) (by omega) (by omega) hcount
      exact ⟨k + 1, by omega, by rw [pow_succ]; omega⟩
    · refine ⟨0, by omega, ?_⟩
      by_contra hne
      have hrest := (le_bitCountLoop (show rounds ≤ 32 by omega) (x := x / 2) (by omega) (by omega)
        (count + x % 2)).2 (by omega)
      omega

theorem two_pow_of_bitCount {n : ℤ} (h0 : 0 < n) (hle : n ≤ MAX_ARRAY_LENGTH)
    (h : bitCount n = 1) : ∃ k < 32, n = 2 ^ k := by
  have hlt : n < 2 ^ 32 := by
    rw [show MAX_ARRAY_LENGTH = 2 ^ 32 - 1 from rfl] at hle
    omega
  have hmod := Int.bmod_emod (x := n) (m := 2 ^ 32)
  have hand := land_two_pow_sub_one 1 (toInt32 n)
  norm_num at hmod hand
  have hword : toUint32 (toInt32 n) = n := by
    unfold toUint32 toInt32
    norm_num
    omega
  have hne : toInt32 n ≠ 0 := by
    intro hzero
    rw [hzero] at hword
    simp [toUint32] at hword
    omega
  have hfirst : bitCount n = bitCountLoop 31 (n / 2) (0 + toInt32 n % 2) := by
    rw [bitCount, bitCountLoop, if_neg hne, hword, hand]
  have hbit : toInt32 n % 2 = n % 2 := by
    unfold toInt32
    norm_num
    omega
  have hcount : bitCountLoop 32 n 0 = 0 + 1 := by
    rw [bitCountLoop_succ h0 hlt, ← hbit, ← hfirst, h, zero_add]
  exact two_pow_of_bitCountLoop le_rfl h0 hlt hcount

namespace RingBuffer

theorem bufferSize_eq (r : RingBuffer) : ∃ k < 32, r.bufferSize = 2 ^ k :=
  two_pow_of_bitCount r.bufferSize_pos r.bufferSize_le r.bufferSize_oneBit

theorem bufferSize_lt (r : RingBuffer) : r.bufferSize < 2 ^ 32 := by
  have hle := r.bufferSize_le
  rw [show MAX_ARRAY_LENGTH = 2 ^ 32 - 1 from rfl] at hle
  omega

theorem calSlotIndex_eq (r : RingBuffer) (sequence : ℤ) :
    r.calSlotIndex sequence = sequence % r.bufferSize := by
  obtain ⟨k, -, hk⟩ := r.bufferSize_eq
  rw [calSlotIndex, indexMask, hk, land_two_pow_sub_one]

/-- The slots do not notice a sequence wrapping. -/
theorem toLong_emod_bufferSize (r : RingBuffer) (x : ℤ) :
    toLong x % r.bufferSize = x % r.bufferSize := by
  obtain ⟨k, hlt, hk⟩ := r.bufferSize_eq
  have hdvd : (2 : ℤ) ^ k ∣ 2 ^ 64 := pow_dvd_pow 2 (by omega)
  rw [hk, ← Int.emod_emod_of_dvd _ hdvd, toLong_emod, Int.emod_emod_of_dvd _ hdvd]

/-- The UID in a slot that can be taken from. -/
def cell (r : RingBuffer) (i : ℤ) : Option ℤ :=
  if r.flags i = CAN_TAKE_FLAG then some (r.slots i) else none

def slot (r : RingBuffer) (position : ℕ) : ℤ := position % r.bufferSize

/-- `uids` are the UIDs of all accepted puts, `claimed` counts the cursor's moves,
and the takes in `pending` have not finished. -/
structure Represents (r : RingBuffer) (uids : List ℤ) (claimed : ℕ) (pending : Finset ℕ) : Prop
    extends Holds r.slot r.cell uids claimed pending where
  flags : ∀ i, r.flags i = CAN_PUT_FLAG ∨ r.flags i = CAN_TAKE_FLAG
  tail : r.tail = toLong (uids.length - 1)
  cursor : r.cursor = toLong (claimed - 1)

def SameShape (r r' : RingBuffer) : Prop :=
  r'.bufferSize = r.bufferSize ∧ r'.paddingThreshold = r.paddingThreshold

theorem represents_new {bufferSize : ℤ} {paddingFactor : ℚ} {r : RingBuffer}
    (h : new bufferSize paddingFactor = .ok r) :
    Represents r [] 0 ∅ ∧ r.bufferSize = bufferSize ∧ 0 < paddingFactor ∧ paddingFactor < 100 ∧
      r.paddingThreshold = ⌊bufferSize * paddingFactor / 100⌋ ∧ r.tail = -1 ∧ r.cursor = -1 := by
  unfold new at h
  split_ifs at h with hpos hbits hfactor hlen
  obtain rfl := Except.ok.inj h
  exact ⟨⟨holds_empty _, fun _ => Or.inl rfl, rfl, rfl⟩, rfl, hfactor.1, hfactor.2, rfl, rfl, rfl⟩

variable {r r' : RingBuffer} {uids : List ℤ} {claimed : ℕ} {pending : Finset ℕ}

theorem Represents.card_unread_le (h : Represents r uids claimed pending) :
    (pending.card + (uids.length - claimed) : ℕ) ≤ r.bufferSize := by
  have hcard : _ ≤ (Finset.Ico 0 r.bufferSize).card := h.toHolds.card_unread_le fun p =>
    Finset.mem_Ico.2 ⟨Int.emod_nonneg _ r.bufferSize_pos.ne', Int.emod_lt_of_pos _ r.bufferSize_pos⟩
  rw [h.toHolds.card_unread, Int.card_Ico] at hcard
  have := r.bufferSize_pos
  omega

theorem Represents.length_le (h : Represents r uids claimed pending) :
    (uids.length : ℤ) ≤ claimed + r.bufferSize := by
  have := h.card_unread_le
  omega

theorem Represents.cursor_eq_tail_iff (h : Represents r uids claimed pending) :
    r.cursor = r.tail ↔ claimed = uids.length := by
  rw [h.cursor, h.tail]
  constructor
  · intro heq
    have hle := h.length_le
    have hclaimed := h.claimed_le
    have := r.bufferSize_lt
    have := toLong_inj (by omega) (by omega) heq
    omega
  · rintro rfl
    rfl

theorem Represents.nextTailIndex (h : Represents r uids claimed pending) :
    r.calSlotIndex (r.tail + 1) = r.slot uids.length := by
  rw [calSlotIndex_eq, h.tail, Int.add_emod, toLong_emod_bufferSize, ← Int.add_emod, slot]
  congr 1
  omega

theorem represents_of {cell' : ℤ → Option ℤ} (hsize : r'.bufferSize = r.bufferSize)
    (hcell : r'.cell = cell') (hholds : Holds r.slot cell' uids claimed pending)
    (hflags : ∀ i, r'.flags i = CAN_PUT_FLAG ∨ r'.flags i = CAN_TAKE_FLAG)
    (htail : r'.tail = toLong (uids.length - 1)) (hcursor : r'.cursor = toLong (claimed - 1)) :
    Represents r' uids claimed pending := by
  have hslot : r'.slot = r.slot := by
    funext p
    rw [slot, slot, hsize]
  exact ⟨by rw [hslot, hcell]; exact hholds, hflags, htail, hcursor⟩

@[simp] theorem cell_setCursor (r : RingBuffer) (c : ℤ) :
    ({ r with cursor := c } : RingBuffer).cell = r.cell := rfl

theorem cell_eq_none_iff (h : Represents r uids claimed pending) (i : ℤ) :
    r.cell i = none ↔ r.flags i = CAN_PUT_FLAG := by
  unfold cell
  rcases h.flags i with hf | hf <;> simp [hf, CAN_PUT_FLAG, CAN_TAKE_FLAG]

theorem flags_update {flags : ℤ → ℤ} {i x : ℤ} (hx : x = CAN_PUT_FLAG ∨ x = CAN_TAKE_FLAG)
    (h : ∀ i, flags i = CAN_PUT_FLAG ∨ flags i = CAN_TAKE_FLAG) (j : ℤ) :
    Function.update flags i x j = CAN_PUT_FLAG ∨ Function.update flags i x j = CAN_TAKE_FLAG := by
  by_cases hj : j = i
  · rwa [hj, Function.update_self]
  · rw [Function.update_of_ne hj]
    exact h j

theorem Represents.put (h : Represents r uids claimed pending) {uid : ℤ}
    (hput : r.tryPut uid = some r') :
    Represents r' (uids ++ [toLong uid]) claimed pending ∧ SameShape r r' ∧
      r'.cursor = r.cursor := by
  simp only [tryPut, h.nextTailIndex] at hput
  split_ifs at hput with hdistance hflag
  obtain rfl := Option.some.inj hput
  rw [not_not] at hflag
  have hholds := h.toHolds.put (toLong uid) ((cell_eq_none_iff h _).2 hflag)
  refine ⟨represents_of (r := r) rfl ?_ hholds (flags_update (Or.inr rfl) h.flags) ?_ h.cursor,
    ⟨rfl, rfl⟩, rfl⟩
  · funext i
    by_cases hi : i = r.slot uids.length
    · simp [cell, hi]
    · simp [cell, hi]
  · simp only
    rw [h.tail, toLong_add_toLong]
    congr 1
    simp

/-- A put is rejected for its distance or for a slot that is still unread. -/
theorem Represents.tryPut_eq_none (h : Represents r uids claimed pending) {uid : ℤ}
    (hput : r.tryPut uid = none) :
    r.distance = r.bufferSize - 1 ∨
      ∃ p ∈ unread uids.length claimed pending, r.slot p = r.slot uids.length := by
  simp only [tryPut] at hput
  split_ifs at hput with hdistance hflag
  · exact Or.inl hdistance
  · right
    rw [h.nextTailIndex] at hflag
    by_contra hnone
    push Not at hnone
    exact hflag ((cell_eq_none_iff h _).1 (h.free _ hnone))

theorem Represents.claim (h : Represents r uids claimed pending) (hlt : claimed < uids.length)
    {nextCursor : ℤ} (hclaim : r.claim = (nextCursor, r')) :
    nextCursor = toLong claimed ∧ Represents r' uids (claimed + 1) (insert claimed pending) ∧
      SameShape r r' ∧ r'.tail = r.tail ∧ r'.cursor = nextCursor := by
  have hne : r.cursor ≠ r.tail := fun heq => hlt.ne (h.cursor_eq_tail_iff.1 heq)
  have hnext : toLong (r.cursor + 1) = toLong claimed := by
    rw [h.cursor, toLong_add_toLong, sub_add_cancel]
  rw [RingBuffer.claim, if_neg hne] at hclaim
  obtain ⟨rfl, rfl⟩ := Prod.mk.inj hclaim
  refine ⟨hnext, represents_of (r := r) rfl (cell_setCursor r _) (h.toHolds.claim hlt) h.flags
    h.tail ?_, ⟨rfl, rfl⟩, rfl, rfl⟩
  simp only [hnext]
  congr 1
  omega

theorem Represents.claim_of_eq (h : Represents r uids claimed pending)
    (heq : claimed = uids.length) : r.claim = (r.cursor, r) := by
  have hlong : toLong r.cursor = r.cursor := by rw [h.cursor, toLong_toLong]
  rw [RingBuffer.claim, if_pos (h.cursor_eq_tail_iff.2 heq), hlong]

/-- A slot that is free is not read. -/
theorem finish_refused {c : ℤ} (hflag : r.flags (r.calSlotIndex c) ≠ CAN_TAKE_FLAG) :
    r.finish c = (.error (.illegalArgument "Curosr not in can take status"), r) := by
  simp only [RingBuffer.finish, isTrue, if_neg hflag]

/-- A slot that is not free is read and set free. -/
theorem finish_taken {c : ℤ} (hflag : r.flags (r.calSlotIndex c) = CAN_TAKE_FLAG) :
    r.finish c = (.ok (r.slots (r.calSlotIndex c)),
      { r with flags := Function.update r.flags (r.calSlotIndex c) CAN_PUT_FLAG }) := by
  simp only [RingBuffer.finish, isTrue, if_pos hflag]

theorem finish_frame {c : ℤ} {outcome : Except Throwable ℤ} (hfinish : r.finish c = (outcome, r')) :
    r' = { r with flags := r'.flags } := by
  unfold RingBuffer.finish at hfinish
  simp only at hfinish
  split at hfinish <;> rw [← (Prod.mk.inj hfinish).2]

theorem Represents.finish (h : Represents r uids claimed pending) {p : ℕ} (hp : p ∈ pending) :
    ∃ uid r', uids[p]? = some uid ∧ r.finish (toLong p) = (.ok uid, r') ∧
      Represents r' uids claimed (pending.erase p) ∧ SameShape r r' ∧ r'.tail = r.tail ∧
        r'.cursor = r.cursor := by
  have hindex : r.calSlotIndex (toLong p) = r.slot p := by
    rw [calSlotIndex_eq, toLong_emod_bufferSize, slot]
  have hp' : p ∈ unread uids.length claimed pending := mem_unread.2 (Or.inl hp)
  have hstored := h.stored p hp'
  have hsome : ∃ uid, uids[p]? = some uid :=
    ⟨_, List.getElem?_eq_getElem (h.toHolds.lt_length hp')⟩
  obtain ⟨uid, huid⟩ := hsome
  rw [huid] at hstored
  have hflag : r.flags (r.slot p) = CAN_TAKE_FLAG := by
    by_contra hflag
    simp [cell, hflag] at hstored
  have hslot : r.slots (r.slot p) = uid := by simpa [cell, hflag] using hstored
  refine ⟨uid, { r with flags := Function.update r.flags (r.slot p) CAN_PUT_FLAG }, huid, ?_,
    represents_of (r := r) rfl ?_ (h.toHolds.finish hp) (flags_update (Or.inl rfl) h.flags) h.tail h.cursor,
    ⟨rfl, rfl⟩, rfl, rfl⟩
  · rw [finish_taken (by rwa [hindex]), hindex, hslot]
  · funext i
    by_cases hi : i = r.slot p
    · simp [cell, hi, CAN_PUT_FLAG, CAN_TAKE_FLAG]
    · simp [cell, hi]

end RingBuffer

def twoSlots : RingBuffer where
  bufferSize := 2
  paddingThreshold := 1
  bufferSize_pos := by decide
  bufferSize_oneBit := by decide
  bufferSize_le := by decide

theorem new_two_fifty : RingBuffer.new 2 50 = .ok twoSlots := by
  have hthreshold : ⌊((2 : ℤ) : ℚ) * 50 / 100⌋ = 1 := by norm_num
  rw [RingBuffer.new, dif_pos (by decide), dif_pos (by decide), if_pos (by norm_num),
    dif_pos (by decide)]
  simp only [hthreshold]
  rfl

end UID
