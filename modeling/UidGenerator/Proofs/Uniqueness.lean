import UidGenerator.Proofs.Cached

/-! What a `CachedUidGenerator` returns over a run: distinct UIDs until the borrowed
seconds have gone round the delta bits, and increasing ones as long as they stay
within the timestamp field. -/

namespace UID

open RingBuffer Transition

namespace CachedUidGenerator

variable {settings : CachedSettings} {workerId now : ℤ} {g g' : CachedUidGenerator} {L : Layout}
  {filled : PaddedRing} {events : List Event}

theorem toSeconds_bounds (h : IsTime now) :
    -8640000000000 ≤ toSeconds now ∧ toSeconds now ≤ 8640000000000 := by
  unfold IsTime at h
  have hdiv : (now.tdiv 1000).natAbs = now.natAbs / 1000 := Int.natAbs_tdiv now 1000
  rw [toSeconds, toLong_eq_self ⟨by omega, by omega⟩]
  omega

theorem providesLongs (hA : g.bitsAllocator = some L.allocator) : ProvidesLongs g.callbacks := by
  intro second uid huid
  obtain ⟨offset, -, rfl⟩ := mem_provided hA huid
  exact isLong_batchUid g L second offset

theorem providesSome (hA : g.bitsAllocator = some L.allocator) : ProvidesSome g.callbacks := by
  intro second uidList h
  rw [show g.callbacks.uidProvider = g.nextIdsForOneSecond from rfl,
    nextIdsForOneSecond_of_layout hA] at h
  split_ifs at h
  rw [← Except.ok.inj h, ne_eq, List.map_eq_nil_iff, List.range_eq_nil]
  exact (Nat.two_pow_pos L.s).ne'

structure After (g : CachedUidGenerator) (bufferSize startSecond : ℤ) (returned : List ℤ) (k : ℕ)
    (g' : CachedUidGenerator) (p : PaddedRing) : Prop where
  generator : g' = { g with padded := some p }
  borrowed : Borrowed g.callbacks bufferSize startSecond returned k p

theorem Ready.after_init (h : Ready settings workerId now L g filled) (hworker : 0 ≤ workerId) :
    ∃ bufferSize < (2 : ℤ) ^ 32, ∃ (k : ℕ) (p : PaddedRing), (k : ℤ) ≤ bufferSize + 1 ∧
      After g bufferSize (toSeconds now) [] k g p := by
  obtain ⟨r, fuel, hnew, hpad⟩ := h.fill
  obtain ⟨p, hstart, hp⟩ := h.start
  have hw : 0 ≤ g.workerId := h.assigned ▸ hworker
  have hw' : g.workerId < 2 ^ L.w := h.assigned ▸ h.workerId_lt
  have hempty : Borrowing g.callbacks r.bufferSize (toSeconds now) [] 0
      ⟨r, .new now settings.scheduleInterval.isSome, true⟩ [] 0 ∅ :=
    ⟨(represents_new hnew).1, rfl, List.nil_sublist _, isLong_toLong _,
      by simp [BufferPaddingExecutor.new, toSeconds], List.nil_sublist _⟩
  obtain ⟨m, hm, uids, claimed, pending, hfilled⟩ := Borrowed.pad ⟨_, _, _, hempty⟩
    (providesLongs h.bitsAllocator) (providesSome h.bitsAllocator) hpad
  rw [Nat.zero_add] at hfilled
  refine ⟨r.bufferSize, r.bufferSize_lt, m, p, hm, ?_,
    ⟨uids, claimed, pending, hfilled.congr (start_sameQueue hstart)⟩⟩
  rw [← hp]

theorem After.step {bufferSize startSecond : ℤ} {returned : List ℤ} {k : ℕ} {p : PaddedRing}
    (h : After g bufferSize startSecond returned k g' p) (hlongs : ProvidesLongs g.callbacks)
    (hsome : ProvidesSome g.callbacks)
    (hreject : g.callbacks.rejectedTakeHandler = RingBuffer.exceptionRejectedTakeBuffer)
    {e : Event} {g₂ : CachedUidGenerator} (hstep : Step g' e g₂) :
    ∃ (m : ℕ) (p₂ : PaddedRing), (m : ℤ) ≤ bufferSize + 1 ∧
      After g bufferSize startSecond (returned ++ e.uid.toList) (k + m) g₂ p₂ := by
  obtain ⟨rfl, hborrowed⟩ := h
  obtain ⟨e', p₂, hpadded, rfl, huid, hput⟩ := step_padded (p := p) rfl hstep
  obtain ⟨m, hm, h₂⟩ := hborrowed.step hlongs hsome hreject hput hpadded
  exact ⟨m, p₂, hm, rfl, huid ▸ h₂⟩

def BorrowsAtMost (startSecond bound : ℤ) (g : CachedUidGenerator) : Prop :=
  ∀ p ∈ g.padded, p.executor.lastSecond - startSecond ≤ bound

/-- All seconds borrowed after `startSecond` lie in the timestamp field. -/
def BorrowsInField (startSecond epochSeconds : ℤ) (A : BitsAllocator) (g : CachedUidGenerator) :
    Prop :=
  ∀ p ∈ g.padded, ∀ second, startSecond < second → second ≤ p.executor.lastSecond →
    epochSeconds ≤ second ∧ second ≤ epochSeconds + A.maxDeltaSeconds

/-- Until then `lastSecond` counts the borrowed seconds: one step borrows too few to wrap. -/
theorem Ready.after_run (h : Ready settings workerId now L g filled) (hworker : 0 ≤ workerId)
    (hreject : settings.rejectedTakeBufferHandler = none) (hnow : IsTime now) {bound : ℤ}
    (hbound : bound ≤ 2 ^ 62) (hfirst : BorrowsAtMost (toSeconds now) bound g)
    (hrun : Run (Within Step (BorrowsAtMost (toSeconds now) bound)) g events g') :
    ∃ (bufferSize : ℤ) (k : ℕ) (p : PaddedRing),
      After g bufferSize (toSeconds now) (returnedUids events) k g' p ∧ (k : ℤ) ≤ bound ∧
        p.executor.lastSecond = toSeconds now + k := by
  have hw : 0 ≤ g.workerId := h.assigned ▸ hworker
  have hw' : g.workerId < 2 ^ L.w := h.assigned ▸ h.workerId_lt
  have hdefault : g.callbacks.rejectedTakeHandler = RingBuffer.exceptionRejectedTakeBuffer := by
    rw [show g.callbacks.rejectedTakeHandler =
      g.rejectedTakeBufferHandler.getD RingBuffer.exceptionRejectedTakeBuffer from rfl,
      h.rejectedTake, hreject, Option.getD_none]
  have hstart := toSeconds_bounds hnow
  have hcount {bufferSize : ℤ} {returned : List ℤ} {k : ℕ} {mid : CachedUidGenerator}
      {p : PaddedRing} (hafter : After g bufferSize (toSeconds now) returned k mid p)
      (hk : (k : ℤ) ≤ 2 ^ 62 + 2 ^ 33) : p.executor.lastSecond = toSeconds now + k := by
    obtain ⟨-, uids, claimed, pending, hborrowing⟩ := hafter
    rw [hborrowing.lastSecond, toLong_eq_self ⟨by omega, by omega⟩]
  obtain ⟨bufferSize, hsize, k₀, p₀, hk₀, hinit⟩ := h.after_init hworker
  have hle₀ := hfirst p₀ (by rw [hinit.generator]; rfl)
  have hbegin := hcount hinit (by omega)
  refine ⟨bufferSize, hrun.invariant (fun events g' => ∃ (k : ℕ) (p : PaddedRing),
    After g bufferSize (toSeconds now) (returnedUids events) k g' p ∧ (k : ℤ) ≤ bound ∧
      p.executor.lastSecond = toSeconds now + k) ⟨k₀, p₀, hinit, by omega, hbegin⟩ ?_⟩
  rintro events mid e mid₂ - ⟨k, p, hafter, hk, -⟩ ⟨hstep, hle⟩
  obtain ⟨m, p₂, hm, hafter₂⟩ := hafter.step (providesLongs h.bitsAllocator)
    (providesSome h.bitsAllocator) hdefault hstep
  have heq := hcount hafter₂ (by push_cast; omega)
  have hle₂ := hle p₂ (by rw [hafter₂.generator]; rfl)
  rw [returnedUids, filterMap_snoc]
  exact ⟨k + m, p₂, hafter₂, by omega, heq⟩

/-- The UIDs returned are a part of those provided for the borrowed seconds. -/
theorem After.returned_sublist {bufferSize startSecond : ℤ} {returned : List ℤ} {k : ℕ}
    {p : PaddedRing} (h : After g bufferSize startSecond returned k g' p) :
    returned.Sublist (UID.borrowed g.callbacks startSecond k) := by
  obtain ⟨-, uids, claimed, pending, hborrowing⟩ := h
  exact hborrowing.returned.trans ((List.take_sublist claimed uids).trans hborrowing.accepted)

theorem BorrowsInField.atMost {startSecond epochSeconds : ℤ}
    (h : BorrowsInField startSecond epochSeconds L.allocator g) :
    BorrowsAtMost startSecond (2 ^ L.t) g := by
  intro p hp
  have hpos : (0 : ℤ) < 2 ^ L.t := by positivity
  have hmax : L.allocator.maxDeltaSeconds = 2 ^ L.t - 1 := rfl
  by_contra hgt
  have hfirst := h p hp (startSecond + 1) (by omega) (by omega)
  have hlast := h p hp p.executor.lastSecond (by omega) le_rfl
  omega

/-- The returned UIDs are distinct until the borrowed seconds have gone round the
delta bits; within the timestamp field they increase and lie after the start. -/
theorem returned_uids_distinct_increasing {fuel : ℕ}
    (hreject : settings.rejectedTakeBufferHandler = none) (hnow : IsTime now)
    (hworker : 0 ≤ workerId)
    (hinit : (configured settings).afterPropertiesSet (.ok workerId) now fuel = some (.ok (), g)) :
    ∃ A, g.bitsAllocator = some A ∧
      (∀ events g', BorrowsAtMost (toSeconds now) (2 ^ (settings.timeBits.toNat + 1)) g →
        Run (Within Step (BorrowsAtMost (toSeconds now) (2 ^ (settings.timeBits.toNat + 1))))
          g events g' →
        (returnedUids events).Nodup) ∧
      ∀ events g', BorrowsInField (toSeconds now) settings.epochSeconds A g →
        Run (Within Step (BorrowsInField (toSeconds now) settings.epochSeconds A)) g events g' →
        (returnedUids events).Pairwise (· < ·) ∧
          ∀ uid ∈ returnedUids events, toSeconds now < g.secondOf A uid := by
  obtain ⟨L, filled, hready⟩ := ready_of_init hinit
  have hw : 0 ≤ g.workerId := hready.assigned ▸ hworker
  have hw' : g.workerId < 2 ^ L.w := hready.assigned ▸ hready.workerId_lt
  have hbits := L.bits_sum
  have hw_pos := L.w_pos
  have hs_pos := L.s_pos
  refine ⟨L.allocator, hready.bitsAllocator, ?_, ?_⟩
  · rw [hready.timeBits, Int.toNat_natCast]
    intro events g' hfirst hrun
    have hrange : (2 : ℤ) ^ (L.t + 1) ≤ 2 ^ 62 := pow_le_pow_right₀ (by norm_num) (by omega)
    obtain ⟨bufferSize, k, p, hafter, hk, -⟩ :=
      hready.after_run hworker hreject hnow hrange hfirst hrun
    exact hafter.returned_sublist.nodup
      (nodup_borrowed hready.bitsAllocator hw hw' _ (by exact_mod_cast hk))
  · rw [← hready.epochSeconds]
    intro events g' hfirst hrun
    have hrange : (2 : ℤ) ^ L.t ≤ 2 ^ 62 := pow_le_pow_right₀ (by norm_num) (by omega)
    obtain ⟨bufferSize, k, p, hafter, hk, hlast⟩ := hready.after_run hworker hreject hnow hrange
      hfirst.atMost (hrun.mono fun _ _ _ h => ⟨h.1, h.2.atMost⟩)
    rcases Nat.eq_zero_or_pos k with rfl | hk_pos
    · have hnone := hafter.returned_sublist
      rw [show UID.borrowed g.callbacks (toSeconds now) 0 = [] from rfl, List.sublist_nil] at hnone
      simp [hnone]
    · have hstart := toSeconds_bounds hnow
      have hfield := hrun.last hfirst p (by rw [hafter.generator]; rfl)
      have hmax : L.allocator.maxDeltaSeconds = 2 ^ L.t - 1 := rfl
      have hearliest := hfield (toSeconds now + 1) (by omega) (by omega)
      have hlatest := hfield p.executor.lastSecond (by omega) le_rfl
      obtain ⟨hincreasing, hlater⟩ := increasing_borrowed hready.bitsAllocator hw hw'
        (k := k) (show -2 ^ 63 ≤ toSeconds now by omega) (by omega) (by omega) (by omega)
      exact ⟨hincreasing.sublist hafter.returned_sublist,
        fun uid huid => hlater uid (hafter.returned_sublist.subset huid)⟩

/-- Two UIDs for each second, and a ring for the UIDs of two. -/
def fourSlots : CachedSettings where
  timeBits := 60
  workerBits := 2
  seqBits := 1
  epochSeconds := 0
  workerBits_pos := two_pos
  seqBits_pos := Int.one_pos
  boostPower := 1
  boostPower_pos := Int.one_pos

def initialized (settings : CachedSettings) : CachedUidGenerator :=
  (((configured settings).afterPropertiesSet (.ok 1) 0 3).map Prod.snd).getD (configured settings)

theorem init_fourSlots :
    (configured fourSlots).afterPropertiesSet (.ok 1) 0 3 = some (.ok (), initialized fourSlots) :=
  eq_some_of_map_fst _ (by decide +kernel)

theorem returned_uids_distinct_increasing_four_slots :
    ∃ (g g' : CachedUidGenerator) (events : List Event),
      (configured fourSlots).afterPropertiesSet (.ok 1) 0 3 = some (.ok (), g) ∧
      Runs g events g' ∧ returnedUids events = [10, 11] ∧ (returnedUids events).Nodup ∧
      (returnedUids events).Pairwise (· < ·) := by
  let g := initialized fourSlots
  let g₁ := ((g.getUID 0).map Prod.snd).getD g
  let g₂ := ((g₁.getUID 0).map Prod.snd).getD g₁
  have htake₁ : Step g (.getUID (.ok 10)) g₁ :=
    .getUID (show g.getUID 0 = _ from eq_some_of_map_fst _ (by decide +kernel))
  have htake₂ : Step g₁ (.getUID (.ok 11)) g₂ :=
    .getUID (show g₁.getUID 0 = _ from eq_some_of_map_fst _ (by decide +kernel))
  have hborrows (P : CachedUidGenerator → Prop)
      (hP : ∀ s, s.padded.map (·.executor.lastSecond) = some 3 → P s) :
      P g ∧ Run (Within Step P) g [.getUID (.ok 10), .getUID (.ok 11)] g₂ :=
    ⟨hP g (by decide +kernel), .cons ⟨htake₁, hP g₁ (by decide +kernel)⟩
      (.cons ⟨htake₂, hP g₂ (by decide +kernel)⟩ .nil)⟩
  obtain ⟨A, hA, hdistinct, hincreasing⟩ :=
    returned_uids_distinct_increasing rfl (by unfold IsTime; decide) (by decide) init_fourSlots
  have hmax : A.maxDeltaSeconds = 2 ^ 60 - 1 := by
    have hfield : g.bitsAllocator.map (·.maxDeltaSeconds) = some (2 ^ 60 - 1) := by decide +kernel
    rw [hA] at hfield
    exact Option.some.inj hfield
  obtain ⟨hmost, hruns⟩ := hborrows (BorrowsAtMost (toSeconds 0) (2 ^ 61)) fun s hs p hp => by
    rw [Option.mem_def.1 hp, Option.map_some, Option.some.injEq] at hs
    rw [hs]
    decide
  obtain ⟨hin, hrunsIn⟩ := hborrows (BorrowsInField (toSeconds 0) fourSlots.epochSeconds A)
    fun s hs p hp second hlo hhi => by
      rw [Option.mem_def.1 hp, Option.map_some, Option.some.injEq] at hs
      rw [show fourSlots.epochSeconds = 0 from rfl, hmax]
      rw [show toSeconds 0 = 0 from rfl] at hlo
      omega
  exact ⟨g, g₂, _, init_fourSlots, .cons htake₁ (.cons htake₂ .nil), rfl, hdistinct _ _ hmost hruns,
    (hincreasing _ _ hin hrunsIn).1⟩

end CachedUidGenerator

end UID
