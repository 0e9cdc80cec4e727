import UidGenerator.Proofs.Batch
import UidGenerator.Proofs.Calls
import UidGenerator.Proofs.FailedTakes

/-! Runs of a `CachedUidGenerator`. Its events are events of the padded ring, with
callbacks that no event changes; what it returns is a part of what the ring
accepted, and that is a part of what the provider had for the borrowed seconds. -/

namespace UID

open RingBuffer Transition

namespace CachedUidGenerator

variable {g g' : CachedUidGenerator} {p p' : PaddedRing} {L : Layout}

/-- A generator that has just been initialized; `filled` is the ring after the first pass. -/
structure Ready (settings : CachedSettings) (workerId now : ℤ) (L : Layout)
    (g : CachedUidGenerator) (filled : PaddedRing) : Prop where
  timeBits : settings.timeBits = L.t
  workerBits : settings.workerBits = L.w
  seqBits : settings.seqBits = L.s
  epochSeconds : g.epochSeconds = settings.epochSeconds
  bitsAllocator : g.bitsAllocator = some L.allocator
  assigned : g.workerId = workerId
  workerId_lt : workerId < 2 ^ L.w
  rejectedPut : g.rejectedPutBufferHandler = settings.rejectedPutBufferHandler
  rejectedTake : g.rejectedTakeBufferHandler = settings.rejectedTakeBufferHandler
  fill : ∃ r fuel, RingBuffer.new (numberShiftLeft (2 ^ L.s) settings.boostPower)
      settings.paddingFactor = .ok r ∧
    PaddedRing.paddingBuffer g.callbacks fuel
      ⟨r, .new now settings.scheduleInterval.isSome, true⟩ = some (.ok (), filled)
  start : ∃ p, filled.start = (.ok (), p) ∧ g.padded = some p

theorem fillRingBuffer_ok {fuel : ℕ} (h : g.fillRingBuffer p fuel = some (.ok (), g')) :
    ∃ filled p', p.paddingBuffer g.callbacks fuel = some (.ok (), filled) ∧
      filled.start = (.ok (), p') ∧ g' = { g with padded := some p' } := by
  unfold fillRingBuffer at h
  cases hpad : p.paddingBuffer g.callbacks fuel with
  | none => simp [hpad] at h
  | some result =>
    obtain ⟨out, filled⟩ := result
    cases out with
    | error e => simp [hpad] at h
    | ok _ =>
      simp only [hpad, Option.some.injEq, Prod.mk.injEq] at h
      exact ⟨filled, filled.start.2, rfl, Prod.ext h.1 rfl, h.2.symm⟩

theorem initRingBuffer_ok {A : BitsAllocator} {now : ℤ} {fuel : ℕ}
    (h : g.initRingBuffer A now fuel = some (.ok (), g')) :
    ∃ r, RingBuffer.new (g.bufferSize A) g.paddingFactor = .ok r ∧
      g.fillRingBuffer ⟨r, .new now g.scheduleInterval.isSome, true⟩ fuel = some (.ok (), g') := by
  unfold initRingBuffer at h
  cases hnew : RingBuffer.new (g.bufferSize A) g.paddingFactor with
  | error e => simp [hnew] at h
  | ok r =>
    cases hcheck : checkScheduleInterval g.scheduleInterval with
    | error e => simp [hnew, hcheck] at h
    | ok _ =>
      simp only [hnew, hcheck] at h
      exact ⟨r, rfl, h⟩

theorem ready_of_init {settings : CachedSettings} {workerId now : ℤ} {fuel : ℕ}
    (h : (configured settings).afterPropertiesSet (.ok workerId) now fuel = some (.ok (), g)) :
    ∃ L filled, Ready settings workerId now L g filled := by
  unfold afterPropertiesSet at h
  cases hsuper : (configured settings).toDefaultUidGenerator.afterPropertiesSet (.ok workerId) with
  | mk out super =>
    cases out with
    | error e => simp [hsuper] at h
    | ok _ =>
      obtain ⟨L, _, ⟨⟩, hlt, ht, hw, hs, rfl⟩ := DefaultUidGenerator.afterPropertiesSet_ok hsuper
      simp only [hsuper] at h
      obtain ⟨r, hnew, hfill⟩ := initRingBuffer_ok h
      obtain ⟨filled, p, hpad, hstart, rfl⟩ := fillRingBuffer_ok hfill
      have hsize : roundToDouble (roundToDouble L.allocator.maxSequence + 1) = 2 ^ L.s :=
        listSize_eq L
      rw [bufferSize, hsize] at hnew
      exact ⟨L, filled, ht, hw, hs, rfl, rfl, rfl, hlt, rfl, rfl, ⟨r, fuel, hnew, hpad⟩,
        ⟨p, hstart, rfl⟩⟩

/-- `getUID` is a take; only the text of its error differs. -/
theorem getUID_take {fuel : ℕ} {outcome : Except Throwable ℤ} (hp : g.padded = some p)
    (h : g.getUID fuel = some (outcome, g')) :
    ∃ out p', p.take g.callbacks fuel = some (out, p') ∧ g' = { g with padded := some p' } ∧
      outcome.toOption = out.toOption := by
  unfold getUID at h
  rw [hp] at h
  simp only at h
  cases htake : p.take g.callbacks fuel with
  | none => simp [htake] at h
  | some result =>
    obtain ⟨out, p'⟩ := result
    cases out <;> simp only [htake, Option.some.injEq, Prod.mk.injEq] at h <;>
      obtain ⟨rfl, rfl⟩ := h <;> exact ⟨_, p', rfl, rfl, rfl⟩

theorem getUID_of_take {fuel : ℕ} {out : Except Throwable ℤ} (hp : g.padded = some p)
    (h : p.take g.callbacks fuel = some (out, p')) :
    ∃ outcome, g.getUID fuel = some (outcome, { g with padded := some p' }) := by
  unfold getUID
  rw [hp]
  cases out <;> simp only [h] <;> exact ⟨_, rfl⟩

/-- An event of a generator is an event of its ring, other than a put from outside. -/
theorem step_padded {e : Event} (hp : g.padded = some p) (h : Step g e g') :
    ∃ e' p', PaddedStep g.callbacks p e' p' ∧ g' = { g with padded := some p' } ∧
      e.uid = e'.uid ∧ ∀ uid out, e' ≠ .put uid out := by
  cases h with
  | getUID h =>
    obtain ⟨out, p', htake, hg', huid⟩ := getUID_take hp h
    exact ⟨.take out, p', .take htake, hg', huid, by simp⟩
  | @paddingBuffer p₁ p' fuel outcome made h =>
    obtain rfl := Option.some.inj (made.symm.trans hp)
    exact ⟨_, p', .paddingBuffer h, rfl, rfl, by simp⟩
  | @fire p₁ p' fuel schedule timer made scheduled armed h =>
    obtain rfl := Option.some.inj (made.symm.trans hp)
    exact ⟨_, p', .fire scheduled armed h, rfl, rfl, by simp⟩
  | destroy h =>
    unfold destroy at h
    rw [hp] at h
    simp only [Prod.mk.injEq] at h
    exact ⟨.shutdown, p.shutdown, .shutdown, h.2.symm, rfl, by simp⟩

end CachedUidGenerator

/-- After `k` borrowed seconds: the ring accepted a part of their UIDs, and a part of
those that its cursor has passed was returned. -/
structure Borrowing (cb : Callbacks) (bufferSize startSecond : ℤ) (returned : List ℤ) (k : ℕ)
    (p : PaddedRing) (uids : List ℤ) (claimed : ℕ) (pending : Finset ℕ) : Prop where
  represents : Represents p.ringBuffer uids claimed pending
  size : p.ringBuffer.bufferSize = bufferSize
  accepted : uids.Sublist (borrowed cb startSecond k)
  isLong : IsLong p.executor.lastSecond
  lastSecond : p.executor.lastSecond = toLong (startSecond + k)
  returned : returned.Sublist (uids.take claimed)

def ProvidesLongs (cb : Callbacks) : Prop := ∀ second, ∀ uid ∈ provided cb second, IsLong uid

variable {cb : Callbacks} {bufferSize startSecond : ℤ} {returned : List ℤ} {k m : ℕ}
  {p p' : PaddedRing} {uids added : List ℤ} {claimed : ℕ} {pending : Finset ℕ}

theorem map_toLong_of_sublist (hlongs : ProvidesLongs cb) {lastSecond : ℤ}
    (h : added.Sublist (borrowed cb lastSecond m)) : added.map toLong = added := by
  have hself : ∀ uid ∈ added, toLong uid = uid := by
    intro uid huid
    obtain ⟨i, -, hi⟩ := List.mem_flatMap.1 (h.subset huid)
    exact toLong_eq_self (hlongs _ uid hi)
  rw [List.map_congr_left hself, List.map_id']

/-- A pass borrows on, for no more seconds than there are slots and one. -/
theorem Borrowing.borrow (h : Borrowing cb bufferSize startSecond returned k p uids claimed pending)
    (hlongs : ProvidesLongs cb) (hsome : ProvidesSome cb)
    (hborrows : Borrows cb p uids claimed pending m added p') :
    (m : ℤ) ≤ bufferSize + 1 ∧
      Borrowing cb bufferSize startSecond returned (k + m) p' (uids ++ added) claimed pending := by
  have hmap := map_toLong_of_sublist hlongs hborrows.sublist
  have hrep := hborrows.ring.represents
  rw [hmap] at hrep
  have hclaimed := h.represents.claimed_le
  have hsize := hborrows.ring.shape.1.trans h.size
  have hlast : p'.executor.lastSecond = toLong (startSecond + (k + m : ℕ)) := by
    rw [← toLong_eq_self (hborrows.isLong h.isLong), hborrows.lastSecond, h.lastSecond,
      toLong_add_toLong]
    push_cast
    rw [add_assoc]
  refine ⟨?_, hrep, hsize, ?_, hborrows.isLong h.isLong, hlast, ?_⟩
  · have hlen := hrep.length_le
    have hbound := hborrows.bound hsome
    rw [hsize, List.length_append] at hlen
    push_cast at hlen
    omega
  · rw [borrowed_add, borrowed_congr cb (a := startSecond + k) (b := p.executor.lastSecond)
      (by rw [h.lastSecond, toLong_toLong])]
    exact h.accepted.append hborrows.sublist
  · rw [List.take_append_of_le_length hclaimed]
    exact h.returned

theorem Borrowing.congr (h : Borrowing cb bufferSize startSecond returned k p uids claimed pending)
    (hsame : SameQueue p p') :
    Borrowing cb bufferSize startSecond returned k p' uids claimed pending where
  represents := hsame.1 ▸ h.represents
  size := hsame.1 ▸ h.size
  accepted := h.accepted
  isLong := hsame.2 ▸ h.isLong
  lastSecond := hsame.2 ▸ h.lastSecond
  returned := h.returned

def Borrowed (cb : Callbacks) (bufferSize startSecond : ℤ) (returned : List ℤ) (k : ℕ)
    (p : PaddedRing) : Prop :=
  ∃ uids claimed pending, Borrowing cb bufferSize startSecond returned k p uids claimed pending

theorem Borrowed.pad (h : Borrowed cb bufferSize startSecond returned k p)
    (hlongs : ProvidesLongs cb) (hsome : ProvidesSome cb) {fuel : ℕ} {out : Except Throwable Unit}
    (hpad : p.paddingBuffer cb fuel = some (out, p')) :
    ∃ m : ℕ, (m : ℤ) ≤ bufferSize + 1 ∧
      Borrowed cb bufferSize startSecond returned (k + m) p' := by
  obtain ⟨uids, claimed, pending, h⟩ := h
  obtain ⟨m, added, hborrows, -⟩ := paddingBuffer_cases h.represents hpad
  obtain ⟨hm, h'⟩ := h.borrow hlongs hsome hborrows
  exact ⟨m, hm, _, _, _, h'⟩

theorem Borrowed.take (h : Borrowed cb bufferSize startSecond returned k p)
    (hlongs : ProvidesLongs cb) (hsome : ProvidesSome cb)
    (hreject : cb.rejectedTakeHandler = RingBuffer.exceptionRejectedTakeBuffer) {fuel : ℕ}
    {outcome : Except Throwable ℤ} (htake : p.take cb fuel = some (outcome, p')) :
    ∃ m : ℕ, (m : ℤ) ≤ bufferSize + 1 ∧
      Borrowed cb bufferSize startSecond (returned ++ outcome.toOption.toList) (k + m) p' := by
  obtain ⟨uids, claimed, pending, h⟩ := h
  have hpos := p.ringBuffer.bufferSize_pos
  rw [h.size] at hpos
  cases take_cases h.represents hreject htake with
  | lost e hout _ _ hring hrest =>
    subst hout
    have hsize := congrArg (·.ringBuffer.bufferSize) hrest
    have hexecutor := congrArg (·.executor) hrest
    simp only [moveCursor] at hsize hexecutor
    refine ⟨0, by omega, uids, claimed + 1, insert claimed pending, hring, hsize.trans h.size,
      h.accepted, hexecutor ▸ h.isLong, hexecutor ▸ h.lastSecond, ?_⟩
    simpa [Except.toOption] using
      h.returned.trans (List.take_sublist_take_left (Nat.le_succ claimed))
  | rejected e hout hempty m added hborrows =>
    subst hout
    obtain ⟨hm, h'⟩ := h.borrow hlongs hsome hborrows
    exact ⟨m, hm, uids ++ added, claimed, pending, by simpa [Except.toOption] using h'⟩
  | taken uid m added mid hout hstored _ hmoved _ hborrows hring hshape _ _ hrest =>
    subst hout
    have hmid : Borrowing cb bufferSize startSecond (returned ++ [uid]) k
        (moveCursor p (p.ringBuffer.cursor + 1)) uids (claimed + 1) (insert claimed pending) := by
      refine ⟨hmoved, h.size, h.accepted, h.isLong, h.lastSecond, ?_⟩
      rw [List.take_add_one, hstored]
      exact h.returned.append (List.Sublist.refl _)
    obtain ⟨hm, h'⟩ := hmid.borrow hlongs hsome hborrows
    have hexecutor := congrArg (·.executor) hrest
    simp only at hexecutor
    refine ⟨m, hm, uids ++ added, claimed + 1, pending, ?_, hshape.1.trans h'.size, h'.accepted,
      hexecutor ▸ h'.isLong, hexecutor ▸ h'.lastSecond, h'.returned⟩
    rwa [map_toLong_of_sublist hlongs hborrows.sublist] at hring

theorem Borrowed.congr (h : Borrowed cb bufferSize startSecond returned k p)
    (hsame : SameQueue p p') : Borrowed cb bufferSize startSecond returned k p' := by
  obtain ⟨uids, claimed, pending, h⟩ := h
  exact ⟨uids, claimed, pending, h.congr hsame⟩

theorem Borrowed.step (h : Borrowed cb bufferSize startSecond returned k p)
    (hlongs : ProvidesLongs cb) (hsome : ProvidesSome cb)
    (hreject : cb.rejectedTakeHandler = RingBuffer.exceptionRejectedTakeBuffer) {e : PaddedEvent}
    (hput : ∀ uid out, e ≠ .put uid out) (hstep : PaddedStep cb p e p') :
    ∃ m : ℕ, (m : ℤ) ≤ bufferSize + 1 ∧
      Borrowed cb bufferSize startSecond (returned ++ e.uid.toList) (k + m) p' := by
  cases event_cases hstep with
  | put uid out _ hevent => exact absurd hevent (hput uid out)
  | take fuel outcome hevent htake =>
    rw [hevent]
    exact h.take hlongs hsome hreject htake
  | pass first last fuel out hsilent hbefore hpad hafter =>
    obtain ⟨m, hm, h'⟩ := (h.congr hbefore).pad hlongs hsome hpad
    rw [hsilent, Option.toList_none, List.append_nil]
    exact ⟨m, hm, h'.congr hafter⟩
  | same hsilent hsame =>
    have hpos : 0 ≤ bufferSize := by
      obtain ⟨uids, claimed, pending, hborrowing⟩ := h
      rw [← hborrowing.size]
      exact p.ringBuffer.bufferSize_pos.le
    rw [hsilent, Option.toList_none, List.append_nil]
    exact ⟨0, by omega, h.congr hsame⟩

end UID
