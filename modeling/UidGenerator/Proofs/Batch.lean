import UidGenerator.Spec.CachedUidGenerator
import UidGenerator.Proofs.Layout
import UidGenerator.Proofs.Padding

/-! The UIDs that a `CachedUidGenerator` borrows for one second, and the size of the
ring they go to. Base plus offset is the UID of each sequence, and the seconds of
two UIDs are told apart modulo the `t + 1` bits of the delta. -/

namespace UID

open BitField

/-- The number of sequences is a double, whatever the width. -/
theorem listSize_eq (L : Layout) : roundToDouble (roundToDouble (2 ^ L.s - 1) + 1) = 2 ^ L.s := by
  have hs : L.s ≤ 61 := by have := L.t_pos; have := L.w_pos; have := L.bits_sum; omega
  by_cases hsmall : L.s ≤ 52
  · have hpos : (0 : ℤ) < 2 ^ L.s := by positivity
    have hle : (2 : ℤ) ^ L.s ≤ 2 ^ 52 := pow_le_pow_right₀ (by norm_num) hsmall
    rw [roundToDouble_of_lt (2 ^ L.s - 1) (by omega), sub_add_cancel,
      roundToDouble_of_lt _ (by omega)]
  · generalize L.s = s at *
    have hs' : 53 ≤ s := by omega
    interval_cases s <;> decide

theorem toInt32_two_pow {n : ℕ} (hn : n ≤ 30) : toInt32 (2 ^ n) = 2 ^ n := by
  have hpow : (2 : ℤ) ^ n ≤ 2 ^ 30 := pow_le_pow_right₀ (by norm_num) hn
  have hpos : (0 : ℤ) < 2 ^ n := by positivity
  exact Int.bmod_eq_of_le_mul_two (by norm_num; omega) (by norm_num; omega)

theorem le_of_toInt32_two_pow {n : ℕ} (h : 0 < toInt32 (2 ^ n)) : n ≤ 30 := by
  have hle : n ≤ 31 := by
    by_contra hgt
    obtain ⟨d, rfl⟩ := Nat.exists_eq_add_of_le (show 32 ≤ n by omega)
    rw [toInt32, pow_add, Int.bmod_eq_zero_of_dvd (by norm_num)] at h
    exact lt_irrefl _ h
  have hne : n ≠ 31 := by
    rintro rfl
    exact absurd h (by decide)
  omega

theorem numberShiftLeft_toInt32 (s : ℕ) (distance : ℤ) :
    numberShiftLeft (2 ^ s) distance = toInt32 (2 ^ (s + (toUint32 distance % 32).toNat)) := by
  rw [numberShiftLeft, pow_add]
  exact Int.bmod_mul_bmod

/-- Within 31 bits the shift multiplies, by a distance that is taken modulo 32. -/
theorem numberShiftLeft_of_fits {s : ℕ} {distance : ℤ} (h : s + (distance % 32).toNat ≤ 30) :
    numberShiftLeft (2 ^ s) distance = 2 ^ (s + (distance % 32).toNat) := by
  have hdistance : toUint32 distance % 32 = distance % 32 :=
    Int.emod_emod_of_dvd _ (by norm_num)
  rw [numberShiftLeft_toInt32, hdistance, toInt32_two_pow h]

theorem numberShiftLeft_of_le {s b : ℕ} (h : s + b ≤ 30) :
    numberShiftLeft (2 ^ s) b = 2 ^ (s + b) := by
  have hdistance : ((b : ℤ) % 32).toNat = b := by omega
  rw [numberShiftLeft_of_fits (by omega), hdistance]

/-- Where the shift stays positive, it fits in 31 bits. -/
theorem fits_of_numberShiftLeft {s : ℕ} {distance : ℤ} (h : 0 < numberShiftLeft (2 ^ s) distance) :
    s + (distance % 32).toNat ≤ 30 := by
  have hdistance : toUint32 distance % 32 = distance % 32 :=
    Int.emod_emod_of_dvd _ (by norm_num)
  rw [numberShiftLeft_toInt32, hdistance] at h
  exact le_of_toInt32_two_pow h

/-- A shift of a power of two that stays positive is a power of two. -/
theorem numberShiftLeft_two_pow {s : ℕ} {distance : ℤ}
    (h : 0 < numberShiftLeft (2 ^ s) distance) :
    ∃ n, s ≤ n ∧ n ≤ 30 ∧ numberShiftLeft (2 ^ s) distance = 2 ^ n := by
  have hfits := fits_of_numberShiftLeft h
  exact ⟨_, Nat.le_add_right _ _, hfits, numberShiftLeft_of_fits hfits⟩

theorem add_allocate (L : Layout) (deltaSeconds workerId : ℤ) {sequence : ℤ} (hs : 0 ≤ sequence)
    (hs' : sequence < 2 ^ L.s) :
    add (L.allocator.allocate deltaSeconds workerId 0) sequence =
      L.allocator.allocate deltaSeconds workerId sequence := by
  rw [L.allocate_add deltaSeconds workerId le_rfl (by positivity),
    L.allocate_add deltaSeconds workerId hs hs', add, toLong_add_toLong, add_zero]

namespace CachedUidGenerator

def batchUid (g : CachedUidGenerator) (L : Layout) (second : ℤ) (offset : ℕ) : ℤ :=
  L.allocator.allocate (subtract second g.epochSeconds) g.workerId offset

variable {g : CachedUidGenerator} {L : Layout}

theorem nextIdsForOneSecond_of_layout (hA : g.bitsAllocator = some L.allocator) (second : ℤ) :
    g.nextIdsForOneSecond second = if L.s ≤ 31 then
      .ok ((List.range (2 ^ L.s)).map fun offset : ℕ =>
        add (L.allocator.allocate (subtract second g.epochSeconds) g.workerId 0) offset)
    else .error (.rangeError "Invalid array length") := by
  have hmax : L.allocator.maxSequence = 2 ^ L.s - 1 := rfl
  have hlength : ¬(2 : ℤ) ^ L.s > MAX_ARRAY_LENGTH ↔ L.s ≤ 31 := by
    rw [show MAX_ARRAY_LENGTH = 2 ^ 32 - 1 from rfl]
    constructor
    · intro hle
      by_contra hgt
      have : (2 : ℤ) ^ 32 ≤ 2 ^ L.s := pow_le_pow_right₀ (by norm_num) (by omega)
      omega
    · intro hle
      have : (2 : ℤ) ^ L.s ≤ 2 ^ 31 := pow_le_pow_right₀ (by norm_num) hle
      omega
  have hnat : ((2 : ℤ) ^ L.s).toNat = 2 ^ L.s := by
    rw [show (2 : ℤ) ^ L.s = ((2 ^ L.s : ℕ) : ℤ) by push_cast; rfl, Int.toNat_natCast]
  simp only [nextIdsForOneSecond, hA, hmax, listSize_eq]
  by_cases hs : L.s ≤ 31
  · rw [if_neg (hlength.2 hs), if_pos hs, hnat]
  · rw [if_pos (not_not.1 fun h => hs (hlength.1 h)), if_neg hs]

theorem nextIdsForOneSecond_eq (hA : g.bitsAllocator = some L.allocator) (second : ℤ) :
    g.nextIdsForOneSecond second = if L.s ≤ 31 then
      .ok ((List.range (2 ^ L.s)).map (g.batchUid L second))
    else .error (.rangeError "Invalid array length") := by
  rw [nextIdsForOneSecond_of_layout hA]
  congr 2
  apply List.map_congr_left
  intro offset hoffset
  have hlt : (offset : ℤ) < 2 ^ L.s := by exact_mod_cast List.mem_range.1 hoffset
  exact add_allocate L _ _ (by omega) hlt

/-- The sequence and the worker id of a borrowed UID, and its second modulo the delta bits. -/
theorem parse_batchUid (hw : 0 ≤ g.workerId) (hw' : g.workerId < 2 ^ L.w) (second : ℤ)
    {offset : ℕ} (ho : offset < 2 ^ L.s) :
    L.allocator.parse (g.batchUid L second offset) =
      ⟨(second - g.epochSeconds) % 2 ^ (L.t + 1), g.workerId, offset⟩ := by
  have hlt : (offset : ℤ) < 2 ^ L.s := by exact_mod_cast ho
  have hdvd : (2 : ℤ) ^ (L.t + 1) ∣ 2 ^ 64 := pow_dvd_pow 2 (by have := L.bits_sum; omega)
  rw [batchUid, L.parse_allocate_of_worker _ hw hw' (by omega) hlt, subtract,
    ← Int.emod_emod_of_dvd _ hdvd, toLong_emod, Int.emod_emod_of_dvd _ hdvd]

theorem isLong_batchUid (g : CachedUidGenerator) (L : Layout) (second : ℤ) (offset : ℕ) :
    IsLong (g.batchUid L second offset) := by
  rw [batchUid, L.allocate_lor]
  exact isLong_toLong _

/-- A batch as the UIDs that `allocate` packs, without wrapping the delta first. -/
theorem batchUid_eq (g : CachedUidGenerator) (L : Layout) (second : ℤ) (offset : ℕ) :
    g.batchUid L second offset =
      L.allocator.allocate (second - g.epochSeconds) g.workerId offset := by
  rw [batchUid, subtract, L.allocate_toLong]

theorem nodup_batch (hw : 0 ≤ g.workerId) (hw' : g.workerId < 2 ^ L.w) (second : ℤ) :
    ((List.range (2 ^ L.s)).map (g.batchUid L second)).Nodup := by
  refine List.Nodup.map_on ?_ List.nodup_range
  intro a ha b hb heq
  have hab := congrArg (fun uid => (L.allocator.parse uid).sequence) heq
  simp only [parse_batchUid hw hw' second (List.mem_range.1 ha),
    parse_batchUid hw hw' second (List.mem_range.1 hb)] at hab
  exact_mod_cast hab

/-- Seconds that differ modulo the delta bits share no UID. -/
theorem disjoint_batch (hw : 0 ≤ g.workerId) (hw' : g.workerId < 2 ^ L.w) {second second' : ℤ}
    (h : ¬2 ^ (L.t + 1) ∣ second - second') :
    ((List.range (2 ^ L.s)).map (g.batchUid L second)).Disjoint
      ((List.range (2 ^ L.s)).map (g.batchUid L second')) := by
  intro uid hmem hmem'
  obtain ⟨a, ha, rfl⟩ := List.mem_map.1 hmem
  obtain ⟨b, hb, heq⟩ := List.mem_map.1 hmem'
  have hdelta := congrArg (fun uid => (L.allocator.parse uid).deltaSeconds) heq
  simp only [parse_batchUid hw hw' second (List.mem_range.1 ha),
    parse_batchUid hw hw' second' (List.mem_range.1 hb)] at hdelta
  apply h
  have hdvd := Int.ModEq.dvd hdelta
  rwa [sub_sub_sub_cancel_right] at hdvd

/-- With at most 31 sequence bits, base plus offset lists the packed UIDs of the second,
and seconds that differ modulo the delta bits share none; a longer list is more than an
array can hold. -/
theorem nextIdsForOneSecond_allocates {t w s : ℤ} (ht : 0 < t) (hw : 0 < w) (hs : 0 < s)
    (hsum : t + w + s = 63) :
    ∃ A, BitsAllocator.new t w s = .ok A ∧ ∀ g : CachedUidGenerator, g.bitsAllocator = some A →
      0 ≤ g.workerId → g.workerId ≤ A.maxWorkerId →
      (s ≤ 31 → ∀ second, ∃ uidList, g.nextIdsForOneSecond second = .ok uidList ∧
        uidList = (List.range (A.maxSequence + 1).toNat).map
          (fun i : ℕ => A.allocate (second - g.epochSeconds) g.workerId i) ∧
        uidList.length = A.maxSequence + 1 ∧ uidList.Nodup ∧
        ∀ second' uidList', ¬2 ^ (t.toNat + 1) ∣ second - second' →
          g.nextIdsForOneSecond second' = .ok uidList' → uidList.Disjoint uidList') ∧
      (31 < s → ∀ second,
        g.nextIdsForOneSecond second = .error (.rangeError "Invalid array length")) := by
  obtain ⟨L, rfl, rfl, rfl⟩ := Layout.exists_of_widths ht hw hs hsum
  refine ⟨L.allocator, L.new_eq, fun g hA hid hid' => ⟨?_, ?_⟩⟩
  · intro hsmall second
    have hlt : g.workerId < 2 ^ L.w := Int.lt_of_le_sub_one hid'
    have hlist (second : ℤ) : g.nextIdsForOneSecond second =
        .ok ((List.range (2 ^ L.s)).map (g.batchUid L second)) := by
      rw [nextIdsForOneSecond_eq hA, if_pos (show L.s ≤ 31 by omega)]
    have hsize : L.allocator.maxSequence + 1 = ((2 ^ L.s : ℕ) : ℤ) := by
      rw [show L.allocator.maxSequence = 2 ^ L.s - 1 from rfl, sub_add_cancel]
      push_cast
      rfl
    refine ⟨_, hlist second, ?_, ?_, nodup_batch hid hlt second, ?_⟩
    · rw [hsize, Int.toNat_natCast]
      exact List.map_congr_left fun i _ => batchUid_eq g L second i
    · rw [List.length_map, List.length_range, hsize]
    · intro second' uidList' hdvd hnext
      rw [hlist second', Except.ok.injEq] at hnext
      rw [← hnext]
      exact disjoint_batch hid hlt hdvd
  · intro hlarge second
    rw [nextIdsForOneSecond_eq hA, if_neg (show ¬L.s ≤ 31 by omega)]

/-- A delta that has overflowed the timestamp field, into the sign bit. -/
theorem nextIdsForOneSecond_allocates_overflow :
    ∃ (g : CachedUidGenerator) (uidList : List ℤ), g.nextIdsForOneSecond (2 ^ 60) = .ok uidList ∧
      uidList = [-9223372036854775806, -9223372036854775805] ∧ uidList.Nodup := by
  obtain ⟨A, hA, hlists⟩ := nextIdsForOneSecond_allocates (t := 60) (w := 2) (s := 1)
    (by decide) (by decide) (by decide) (by decide)
  let L : Layout := ⟨60, 2, 1, by decide, by decide, by decide, by decide⟩
  obtain rfl : A = L.allocator := Except.ok.inj (hA.symm.trans L.new_eq)
  let g : CachedUidGenerator :=
    { configured {} with epochSeconds := 0, bitsAllocator := some L.allocator, workerId := 1 }
  obtain ⟨uidList, hnext, hallocate, -, hnodup, -⟩ :=
    (hlists g rfl (by decide) (by decide)).1 (by decide) (2 ^ 60)
  exact ⟨g, uidList, hnext, hallocate.trans (by decide +kernel), hnodup⟩

/-- With 32 sequence bits no list is made, whatever the second. -/
theorem nextIdsForOneSecond_too_long :
    ∃ (g : CachedUidGenerator) (A : BitsAllocator), BitsAllocator.new 30 1 32 = .ok A ∧
      g.bitsAllocator = some A ∧ 0 ≤ g.workerId ∧ g.workerId ≤ A.maxWorkerId ∧
      g.nextIdsForOneSecond 0 = .error (.rangeError "Invalid array length") := by
  let L : Layout := ⟨30, 1, 32, by decide, by decide, by decide, by decide⟩
  let g : CachedUidGenerator := { configured {} with bitsAllocator := some L.allocator }
  exact ⟨g, L.allocator, L.new_eq, rfl, by decide, by decide,
    (nextIdsForOneSecond_eq (g := g) (L := L) rfl 0).trans (if_neg (by decide))⟩

theorem provided_eq (hA : g.bitsAllocator = some L.allocator) (second : ℤ) :
    provided g.callbacks second =
      if L.s ≤ 31 then (List.range (2 ^ L.s)).map (g.batchUid L second) else [] := by
  rw [provided, show g.callbacks.uidProvider = g.nextIdsForOneSecond from rfl,
    nextIdsForOneSecond_eq hA]
  split_ifs <;> rfl

theorem mem_provided (hA : g.bitsAllocator = some L.allocator) {second uid : ℤ}
    (h : uid ∈ provided g.callbacks second) :
    ∃ offset < 2 ^ L.s, uid = g.batchUid L second offset := by
  rw [provided_eq hA] at h
  split_ifs at h
  · obtain ⟨offset, hoffset, rfl⟩ := List.mem_map.1 h
    exact ⟨offset, List.mem_range.1 hoffset, rfl⟩
  · simp at h

/-- The seconds of a pass are told apart by the delta bits as long as there are no more of them. -/
theorem nodup_borrowed (hA : g.bitsAllocator = some L.allocator) (hw : 0 ≤ g.workerId)
    (hw' : g.workerId < 2 ^ L.w) (lastSecond : ℤ) {k : ℕ} (hk : k ≤ 2 ^ (L.t + 1)) :
    (borrowed g.callbacks lastSecond k).Nodup := by
  have hdvd : (2 : ℤ) ^ (L.t + 1) ∣ 2 ^ 64 := pow_dvd_pow 2 (by have := L.bits_sum; omega)
  have hparse {i offset : ℕ} (ho : offset < 2 ^ L.s) :
      L.allocator.parse (g.batchUid L (toLong (lastSecond + (1 + i))) offset) =
        ⟨(lastSecond + (1 + i) - g.epochSeconds) % 2 ^ (L.t + 1), g.workerId, offset⟩ := by
    rw [parse_batchUid hw hw' _ ho, Int.sub_emod, ← Int.emod_emod_of_dvd (toLong _) hdvd,
      toLong_emod, Int.emod_emod_of_dvd _ hdvd, ← Int.sub_emod]
  rw [borrowed, List.nodup_flatMap]
  constructor
  · intro i _
    rw [provided_eq hA]
    split_ifs
    · exact nodup_batch hw hw' _
    · exact List.nodup_nil
  · apply List.nodup_range.imp_of_mem
    intro i j hi hj hne uid hui huj
    obtain ⟨a, ha, rfl⟩ := mem_provided hA hui
    obtain ⟨b, hb, heq⟩ := mem_provided hA huj
    have hd := congrArg (fun uid => (L.allocator.parse uid).deltaSeconds) heq
    simp only [hparse ha, hparse hb] at hd
    have hi' := List.mem_range.1 hi
    have hj' := List.mem_range.1 hj
    have hk' : (k : ℤ) ≤ 2 ^ (L.t + 1) := by exact_mod_cast hk
    have heq := eq_of_emod_eq (by omega) (by omega) hd
    exact hne (by omega)

/-- Seconds within the timestamp field give increasing UIDs, which decode to them. -/
theorem increasing_borrowed (hA : g.bitsAllocator = some L.allocator) (hw : 0 ≤ g.workerId)
    (hw' : g.workerId < 2 ^ L.w) {lastSecond : ℤ} {k : ℕ} (hlong : -2 ^ 63 ≤ lastSecond)
    (hlong' : lastSecond + k < 2 ^ 63) (hfirst : g.epochSeconds ≤ lastSecond + 1)
    (hlast : lastSecond + k - g.epochSeconds < 2 ^ L.t) :
    (borrowed g.callbacks lastSecond k).Pairwise (· < ·) ∧
      ∀ uid ∈ borrowed g.callbacks lastSecond k,
        lastSecond < g.epochSeconds + (L.allocator.parse uid).deltaSeconds := by
  have hfits : (2 : ℤ) ^ L.t < 2 ^ (L.t + 1) := pow_lt_pow_right₀ (by norm_num) (by omega)
  have hpow : (2 : ℤ) ^ L.t ≤ 2 ^ 63 :=
    pow_le_pow_right₀ (by norm_num) (by have := L.bits_sum; omega)
  have hsecond {i : ℕ} (hi : i < k) : toLong (lastSecond + (1 + i)) = lastSecond + (1 + i) :=
    toLong_eq_self ⟨by omega, by omega⟩
  have hpack {i offset : ℕ} (hi : i < k) (ho : offset < 2 ^ L.s) :
      g.batchUid L (toLong (lastSecond + (1 + i))) offset =
        L.pack (lastSecond + (1 + i) - g.epochSeconds) g.workerId offset := by
    have hlt : (offset : ℤ) < 2 ^ L.s := by exact_mod_cast ho
    rw [hsecond hi, batchUid, subtract, toLong_eq_self ⟨by omega, by omega⟩,
      L.allocate_eq_pack (by omega) (by omega) hw hw' (by omega) hlt]
  constructor
  · rw [borrowed, List.pairwise_flatMap]
    constructor
    · intro i hi
      rw [provided_eq hA]
      split_ifs
      · rw [List.pairwise_map]
        refine List.pairwise_lt_range.imp_of_mem fun {a b} ha hb hab => ?_
        rw [hpack (List.mem_range.1 hi) (List.mem_range.1 ha),
          hpack (List.mem_range.1 hi) (List.mem_range.1 hb)]
        unfold Layout.pack
        omega
      · exact List.Pairwise.nil
    · refine List.pairwise_lt_range.imp_of_mem fun {i j} hi hj hij uid hui uid' huj => ?_
      obtain ⟨a, ha, rfl⟩ := mem_provided hA hui
      obtain ⟨b, hb, rfl⟩ := mem_provided hA huj
      have ha' : (a : ℤ) < 2 ^ L.s := by exact_mod_cast ha
      rw [hpack (List.mem_range.1 hi) ha, hpack (List.mem_range.1 hj) hb]
      exact L.pack_lt_pack (by omega) hw' hw ha' (by omega)
  · intro uid huid
    obtain ⟨i, hi, hui⟩ := List.mem_flatMap.1 huid
    obtain ⟨a, ha, rfl⟩ := mem_provided hA hui
    have hi' := List.mem_range.1 hi
    rw [parse_batchUid hw hw' _ ha, hsecond hi']
    simp only
    rw [Int.emod_eq_of_lt (by omega) (by omega)]
    omega

end CachedUidGenerator

end UID
