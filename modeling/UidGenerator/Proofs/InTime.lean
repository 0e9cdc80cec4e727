import UidGenerator.Proofs.Uniqueness

/-! In-time padding. With a provider that always has a UID, passes and takes end, a
pass leaves all slots but one unread, and takes succeed one after another exactly as
long as the threshold lets them ask for passes and the cursor does not wrap. -/

namespace UID

open RingQueue RingBuffer Transition

variable {cb : Callbacks} {r r' : RingBuffer} {p p' : PaddedRing} {uids : List ℤ} {claimed : ℕ}
  {pending : Finset ℕ} {fuel : ℕ}

/-- The provider has a UID for every second, and the handler lets rejected puts pass. -/
structure Reliable (cb : Callbacks) : Prop where
  provides : ∀ second, ∃ uidList, cb.uidProvider second = .ok uidList ∧ uidList ≠ []
  discards : ∀ r uid, cb.rejectedPutHandler r uid = .ok ()

theorem Reliable.put (h : Reliable cb) (r : RingBuffer) (uid : ℤ) :
    ∃ accepted, (r.put cb.rejectedPutHandler uid).1 = .ok accepted := by
  unfold RingBuffer.put
  cases r.tryPut uid with
  | some r' => exact ⟨true, rfl⟩
  | none => exact ⟨false, by simp only [h.discards]⟩

theorem Reliable.putAll (h : Reliable cb) (r : RingBuffer) (uidList : List ℤ) :
    ∃ full, (putAll cb r uidList).1 = .ok full := by
  induction uidList generalizing r with
  | nil => exact ⟨false, rfl⟩
  | cons uid uidList ih =>
    obtain ⟨accepted, haccepted⟩ := h.put r uid
    unfold UID.putAll
    cases hput : r.put cb.rejectedPutHandler uid with
    | mk out r' =>
      rw [hput] at haccepted
      simp only at haccepted
      rw [haccepted]
      cases accepted with
      | true => exact ih r'
      | false => exact ⟨true, rfl⟩

/-- One round of the loop: the pass is over, or the loop goes on with more UIDs in the ring. -/
theorem paddingLoop_round (hcb : Reliable cb) (h : Represents p.ringBuffer uids claimed pending) :
    (∃ p', ∀ fuel, p.paddingLoop cb (fuel + 1) = some (.ok (), p')) ∨
      ∃ (p₁ : PaddedRing) (uids₁ : List ℤ), Represents p₁.ringBuffer uids₁ claimed pending ∧
        p₁.ringBuffer.bufferSize = p.ringBuffer.bufferSize ∧ uids.length < uids₁.length ∧
        ∀ fuel, p.paddingLoop cb (fuel + 1) = p₁.paddingLoop cb fuel := by
  obtain ⟨uidList, hprov, hsome⟩ := hcb.provides p.nextSecond.executor.lastSecond
  obtain ⟨full, hfull⟩ := hcb.putAll p.nextSecond.ringBuffer uidList
  cases hputs : putAll cb p.nextSecond.ringBuffer uidList with
  | mk out r =>
    rw [hputs] at hfull
    obtain rfl : out = .ok full := hfull
    cases full with
    | true =>
      left
      exact ⟨{ p.nextSecond with ringBuffer := r }, fun fuel => by
        simp only [PaddedRing.paddingLoop, hprov, hputs]⟩
    | false =>
      right
      obtain ⟨added, hext, -, ⟨-, rfl⟩ | ⟨hstop, -⟩⟩ := putAll_cases h hputs
      · refine ⟨{ p.nextSecond with ringBuffer := r }, _, hext.represents, hext.shape.1, ?_,
          fun fuel => by simp only [PaddedRing.paddingLoop, hprov, hputs]⟩
        have hpos := List.length_pos_iff.2 hsome
        rw [List.length_append, List.length_map]
        omega
      · exact absurd rfl hstop

theorem paddingLoop_total (hcb : Reliable cb) (h : Represents p.ringBuffer uids claimed pending) :
    ∃ fuel p', p.paddingLoop cb fuel = some (.ok (), p') := by
  -- on the number of UIDs that the ring still has room for
  obtain ⟨room, hroom⟩ : ∃ room : ℕ, claimed + p.ringBuffer.bufferSize ≤ uids.length + room :=
    ⟨(claimed + p.ringBuffer.bufferSize).toNat, by omega⟩
  induction room generalizing p uids with
  | zero =>
    rcases paddingLoop_round hcb h with ⟨p', hend⟩ | ⟨p₁, uids₁, h₁, hsize, hlt, -⟩
    · exact ⟨1, p', hend 0⟩
    · have := h₁.length_le
      omega
  | succ room ih =>
    rcases paddingLoop_round hcb h with ⟨p', hend⟩ | ⟨p₁, uids₁, h₁, hsize, hlt, hnext⟩
    · exact ⟨1, p', hend 0⟩
    · obtain ⟨fuel, p', hrest⟩ := ih h₁ (by omega)
      exact ⟨fuel + 1, p', (hnext fuel).trans hrest⟩

theorem paddingLoop_ok (hcb : Reliable cb) (h : Represents p.ringBuffer uids claimed pending)
    {out : Except Throwable Unit} (hloop : p.paddingLoop cb fuel = some (out, p')) :
    out = .ok () := by
  induction fuel generalizing p uids with
  | zero => simp [PaddedRing.paddingLoop] at hloop
  | succ fuel ih =>
    rcases paddingLoop_round hcb h with ⟨p₂, hend⟩ | ⟨p₁, uids₁, h₁, -, -, hnext⟩
    · rw [hend, Option.some.injEq, Prod.mk.injEq] at hloop
      exact hloop.1.symm
    · rw [hnext] at hloop
      exact ih h₁ hloop

theorem paddingBuffer_total (hcb : Reliable cb) (h : HoldsQueue p.ringBuffer) :
    ∃ fuel p', p.paddingBuffer cb fuel = some (.ok (), p') := by
  obtain ⟨uids, claimed, pending, hrep⟩ := h
  cases hrunning : p.executor.running with
  | true => exact ⟨0, p, by rw [PaddedRing.paddingBuffer, if_pos hrunning]⟩
  | false =>
    obtain ⟨fuel, p', hloop⟩ := paddingLoop_total (p := p.setRunning true) hcb hrep
    exact ⟨fuel, p'.setRunning false, by simp [PaddedRing.paddingBuffer, hrunning, hloop]⟩

theorem paddingBuffer_ok (hcb : Reliable cb) (h : Represents p.ringBuffer uids claimed pending)
    {out : Except Throwable Unit} (hpad : p.paddingBuffer cb fuel = some (out, p')) :
    out = .ok () := by
  rcases paddingBuffer_steps hpad with ⟨-, hout, -⟩ | ⟨-, mid, hloop, -⟩
  · exact hout
  · exact paddingLoop_ok (p := p.setRunning true) hcb h hloop

theorem HoldsQueue.claim (h : HoldsQueue r) : HoldsQueue r.claim.2 := by
  obtain ⟨uids, claimed, pending, hrep⟩ := h
  rcases hrep.claimed_le.eq_or_lt with heq | hlt
  · rw [hrep.claim_of_eq heq]
    exact ⟨uids, claimed, pending, hrep⟩
  · exact ⟨_, _, _, (hrep.claim hlt rfl).2.1⟩

theorem take_total (hcb : Reliable cb) (h : HoldsQueue p.ringBuffer) :
    ∃ fuel outcome p', p.take cb fuel = some (outcome, p') := by
  have hclaimed := h.claim
  unfold PaddedRing.take
  generalize p.ringBuffer.claim = claim at hclaimed ⊢
  obtain ⟨nextCursor, r⟩ := claim
  simp only [isTrue]
  split_ifs
  · obtain ⟨fuel, p₁, hpad⟩ :=
      paddingBuffer_total (p := { p with ringBuffer := r }) hcb hclaimed
    refine ⟨fuel, ?_⟩
    simp only [PaddedRing.triggerPadding, PaddedRing.asyncPadding, hpad]
    split_ifs <;> exact ⟨_, _, rfl⟩
  · exact ⟨0, _, _, rfl⟩

/-- When no take but the last is between its steps, a full ring has at most one free slot. -/
theorem IsFull.length_ge (hfull : IsFull r) (h : Represents r uids claimed pending)
    (hpending : ∀ q ∈ pending, claimed ≤ q + 1) (hclaimed : claimed ≤ 2 ^ 63) :
    claimed + r.bufferSize ≤ uids.length + 1 ∧ (claimed = 0 → r.bufferSize ≤ uids.length) := by
  obtain ⟨uid, hput⟩ := hfull
  have hle := h.length_le
  have hlt := r.bufferSize_lt
  have hpos := r.bufferSize_pos
  rcases h.tryPut_eq_none hput with hdistance | ⟨q, hq, hslot⟩
  · have hcursor : r.cursor = claimed - 1 := by
      rw [h.cursor, toLong_eq_self ⟨by omega, by omega⟩]
    have htail := toLong_emod (uids.length - 1)
    have hlong := isLong_toLong (uids.length - 1)
    rw [← h.tail] at htail hlong
    unfold IsLong at hlong
    rw [distance, hcursor, START_POINT] at hdistance
    split_ifs at hdistance <;> omega
  · have hqlt := h.toHolds.lt_length hq
    have hdvd : r.bufferSize ∣ (uids.length : ℤ) - q := Int.ModEq.dvd hslot
    have hfar := Int.le_of_dvd (by omega) hdvd
    rcases mem_unread.1 hq with hq | ⟨hq, -⟩
    · have := hpending q hq
      omega
    · omega

/-- How many takes can succeed: the UIDs of the first fill if no take ever asks for a
pass, and otherwise as many as the cursor counts without wrapping. -/
def takesLimit (bufferSize paddingThreshold : ℤ) : ℤ :=
  if paddingThreshold ≤ 0 then bufferSize else 2 ^ 63

structure Serving (bufferSize paddingThreshold : ℤ) (uids : List ℤ) (taken : ℕ) (p : PaddedRing) :
    Prop where
  represents : Represents p.ringBuffer uids taken ∅
  size : p.ringBuffer.bufferSize = bufferSize
  threshold : p.ringBuffer.paddingThreshold = paddingThreshold
  idle : p.executor.running = false
  live : p.executor.bufferPadExecutorsShutdown = false
  attached : p.attached = true
  unpadded : paddingThreshold ≤ 0 → paddingThreshold = 0 ∧ (uids.length : ℤ) = bufferSize
  padded : 0 < paddingThreshold → taken < uids.length

variable {bufferSize paddingThreshold : ℤ} {taken : ℕ}

theorem Serving.cursor_eq (h : Serving bufferSize paddingThreshold uids taken p)
    (hle : taken ≤ takesLimit bufferSize paddingThreshold) :
    p.ringBuffer.cursor = taken - 1 ∧ (taken : ℤ) ≤ 2 ^ 63 := by
  have hlt := p.ringBuffer.bufferSize_lt
  rw [h.size] at hlt
  have hsmall : (taken : ℤ) ≤ 2 ^ 63 := by
    unfold takesLimit at hle
    split_ifs at hle <;> omega
  rw [h.represents.cursor, toLong_eq_self ⟨by omega, by omega⟩]
  exact ⟨rfl, hsmall⟩

/-- The pass that a take asks for leaves UIDs for the next take, and so does a take
that asks for none. -/
theorem Serving.refilled (h : Serving bufferSize paddingThreshold uids taken p)
    (hcb : Reliable cb) (hsize : 2 ≤ bufferSize) (htaken : (taken : ℤ) < 2 ^ 63)
    (havailable : taken < uids.length) (hcursor : p.ringBuffer.cursor = taken - 1)
    {mid : PaddedRing} {added : List ℤ}
    (hmoved : Represents (moveCursor p taken).ringBuffer uids (taken + 1) {taken})
    (htrigger : (moveCursor p taken).triggerPadding cb fuel taken = some (.ok (), mid))
    (hring : Represents mid.ringBuffer (uids ++ added) (taken + 1) {taken})
    (hsame : SameShape p.ringBuffer mid.ringBuffer) :
    mid.executor.running = false ∧
      (paddingThreshold ≤ 0 → ((uids ++ added).length : ℤ) = bufferSize) ∧
      (0 < paddingThreshold → taken + 1 < (uids ++ added).length) := by
  have hlt := p.ringBuffer.bufferSize_lt
  have hle := hring.length_le
  have htail := toLong_emod (uids.length - 1)
  have hlong := isLong_toLong (uids.length - 1)
  rw [← h.represents.tail] at htail hlong
  unfold IsLong at hlong
  rw [h.size] at hlt
  rw [hsame.1, h.size] at hle
  rw [List.length_append] at hle ⊢
  rcases triggerPadding_cases htrigger with ⟨hquiet, -, rfl⟩ | ⟨-, -, herr, -⟩ |
    ⟨hbelow, -, -, out, hpad⟩
  · -- the threshold is not reached: enough UIDs remain, and none is added
    have hkeep : (uids.length : ℤ) = uids.length + added.length := by
      have hold := h.represents.tail
      have hnew := hring.tail
      rw [moveCursor_tail, hold, List.length_append] at hnew
      have := toLong_inj (by push_cast; omega) (by push_cast; omega) hnew
      push_cast at this
      omega
    refine ⟨h.idle, ?_, ?_⟩
    · intro hunpadded
      have := (h.unpadded hunpadded).2
      omega
    · intro hpadded
      have hmany : ¬p.ringBuffer.tail - taken < paddingThreshold := fun hfew =>
        hquiet ⟨by rw [← h.threshold] at hfew; exact hfew, h.attached⟩
      omega
  · cases herr
  · obtain rfl := paddingBuffer_ok hcb hmoved hpad
    obtain ⟨k, more, hborrows, ⟨hrunning, -⟩ | ⟨-, hfull, hend⟩⟩ := paddingBuffer_cases hmoved hpad
    · rw [moveCursor_executor, h.idle] at hrunning
      cases hrunning
    · have hroom := ((hfull rfl).length_ge hring (by simp) (by omega)).1
      rw [hsame.1, h.size, List.length_append] at hroom
      refine ⟨by simpa using hend, fun hunpadded => ?_, fun _ => by push_cast at hroom; omega⟩
      -- a threshold of zero is never reached
      obtain ⟨hzero, hlen⟩ := h.unpadded hunpadded
      have hfew : p.ringBuffer.tail - taken < paddingThreshold := by
        rw [← h.threshold]
        exact hbelow.1
      omega

/-- A take succeeds exactly as long as the limit is not reached. -/
theorem Serving.take (h : Serving bufferSize paddingThreshold uids taken p) (hcb : Reliable cb)
    (hreject : cb.rejectedTakeHandler = exceptionRejectedTakeBuffer) (hsize : 2 ≤ bufferSize)
    (hle : taken ≤ takesLimit bufferSize paddingThreshold) {outcome : Except Throwable ℤ}
    (htake : p.take cb fuel = some (outcome, p')) :
    (∃ e, outcome = .error e) ∧ taken = takesLimit bufferSize paddingThreshold ∨
      ∃ uid uids', outcome = .ok uid ∧ taken < takesLimit bufferSize paddingThreshold ∧
        Serving bufferSize paddingThreshold uids' (taken + 1) p' := by
  have hlt := p.ringBuffer.bufferSize_lt
  rw [h.size] at hlt
  obtain ⟨hcursor, hbound⟩ := h.cursor_eq hle
  cases take_cases h.represents hreject htake with
  | lost e hout _ hloses =>
    refine Or.inl ⟨⟨e, hout⟩, ?_⟩
    rcases hloses.2 with hmax | ⟨-, hshut, -⟩
    · unfold takesLimit at hle ⊢
      split_ifs at hle ⊢ <;> omega
    · rw [h.live] at hshut
      cases hshut
  | rejected e hout hempty =>
    refine Or.inl ⟨⟨e, hout⟩, ?_⟩
    unfold takesLimit
    split_ifs with hunpadded
    · rw [hempty, (h.unpadded hunpadded).2]
    · have := h.padded (by omega)
      omega
  | taken uid k added mid hout hstored hkeeps hmoved htrigger hborrows hring hshape _ _ hrest =>
    obtain ⟨havailable, -⟩ := List.getElem?_eq_some_iff.1 hstored
    have hne : p.ringBuffer.cursor ≠ p.ringBuffer.tail := fun heq =>
      havailable.ne (h.represents.cursor_eq_tail_iff.1 heq)
    have hmax : (taken : ℤ) < 2 ^ 63 := by
      rcases hbound.lt_or_eq with hlt | heq
      · exact hlt
      · exact absurd ⟨hne, Or.inl (by rw [hcursor]; omega)⟩ hkeeps
    rw [show p.ringBuffer.cursor + 1 = taken by omega] at hmoved htrigger hborrows
    rw [insert_empty_eq] at hmoved hborrows
    have hsame : SameShape p.ringBuffer mid.ringBuffer := hborrows.ring.shape
    obtain ⟨hidle, hunpadded, hpadded⟩ := h.refilled hcb hsize hmax havailable hcursor hmoved htrigger
      hborrows.ring.represents hsame
    have hexecutor := congrArg (·.executor) hrest
    have hattached := congrArg (·.attached) hrest
    simp only at hexecutor hattached
    refine Or.inr ⟨uid, uids ++ added.map toLong, hout, ?_, hring, ?_, ?_, ?_, ?_, ?_, ?_, hpadded⟩
    · unfold takesLimit
      split_ifs with hzero
      · have := (h.unpadded hzero).2
        omega
      · exact hmax
    · rw [hshape.1, hsame.1, h.size]
    · rw [hshape.2, hsame.2, h.threshold]
    · rw [hexecutor, hidle]
    · rw [hexecutor, hborrows.shutdown]
      exact h.live
    · rw [hattached, hborrows.attached]
      exact h.attached
    · exact fun hzero => ⟨(h.unpadded hzero).1, hunpadded hzero⟩

namespace CachedUidGenerator

variable {settings : CachedSettings} {workerId now : ℤ} {g g' : CachedUidGenerator} {L : Layout}
  {filled : PaddedRing} {events : List Event}

theorem callbacks_default (hput : g.rejectedPutBufferHandler = none)
    (htake : g.rejectedTakeBufferHandler = none) :
    g.callbacks = defaultCallbacks g.nextIdsForOneSecond := by
  rw [callbacks, hput, htake]
  rfl

theorem reliable (hA : g.bitsAllocator = some L.allocator) (hs : L.s ≤ 31) :
    Reliable (defaultCallbacks g.nextIdsForOneSecond) where
  provides second := by
    refine ⟨_, (nextIdsForOneSecond_of_layout hA second).trans (if_pos hs), ?_⟩
    rw [ne_eq, List.map_eq_nil_iff, List.range_eq_nil]
    exact (Nat.two_pow_pos L.s).ne'
  discards _ _ := rfl

/-- The first fill leaves no free slot. -/
theorem Ready.serving (h : Ready settings workerId now L g filled)
    (hput : settings.rejectedPutBufferHandler = none)
    (htake : settings.rejectedTakeBufferHandler = none) :
    ∃ p uids, g.padded = some p ∧ Reliable g.callbacks ∧ 2 ≤ p.ringBuffer.bufferSize ∧
      p.ringBuffer.paddingThreshold = ⌊p.ringBuffer.bufferSize * settings.paddingFactor / 100⌋ ∧
      Serving p.ringBuffer.bufferSize p.ringBuffer.paddingThreshold uids 0 p := by
  obtain ⟨r, fuel, hnew, hpad⟩ := h.fill
  obtain ⟨p, hstart, hp⟩ := h.start
  obtain ⟨hrep, hbuffer, hfactor, -, hthreshold, -, -⟩ := represents_new hnew
  obtain ⟨n, hsn, hn, hpow⟩ := numberShiftLeft_two_pow (hbuffer ▸ r.bufferSize_pos)
  have hreliable : Reliable g.callbacks := by
    rw [callbacks_default (h.rejectedPut.trans hput) (h.rejectedTake.trans htake)]
    exact reliable h.bitsAllocator (by omega)
  have hsize : (2 : ℤ) ^ 1 ≤ r.bufferSize := by
    rw [hbuffer, hpow]
    exact pow_le_pow_right₀ (by norm_num) (by have := L.s_pos; omega)
  obtain ⟨k, added, hborrows, ⟨hrunning, -⟩ | ⟨-, hfull, hidle⟩⟩ :=
    paddingBuffer_cases (p := ⟨r, .new now settings.scheduleInterval.isSome, true⟩) hrep hpad
  · cases hrunning
  · have hshape : SameShape r filled.ringBuffer := hborrows.ring.shape
    have hfilled := hborrows.ring.represents
    have hlen := ((hfull rfl).length_ge hfilled (by simp) (by simp)).2 rfl
    have hle := hfilled.length_le
    rw [hshape.1] at hlen hle
    have hnonneg : 0 ≤ r.paddingThreshold := by
      rw [hthreshold, ← hbuffer]
      have hpos : (0 : ℚ) < r.bufferSize := by exact_mod_cast r.bufferSize_pos
      exact Int.floor_nonneg.2 (div_nonneg (mul_nonneg hpos.le hfactor.le) (by norm_num))
    have hserving : Serving r.bufferSize r.paddingThreshold ([] ++ added.map toLong) 0 filled :=
      { represents := hfilled
        size := hshape.1
        threshold := hshape.2
        idle := by simpa using hidle
        live := hborrows.shutdown
        attached := hborrows.attached
        unpadded := fun hzero => ⟨by omega, by omega⟩
        padded := fun _ => by omega }
    have hsame : p.ringBuffer = filled.ringBuffer := (start_sameQueue hstart).1
    refine ⟨p, [] ++ added.map toLong, hp, hreliable, by rw [hsame, hshape.1]; exact hsize, ?_, ?_⟩
    · rw [hsame, hshape.1, hshape.2, hthreshold, hbuffer]
    · rw [hsame, hshape.1, hshape.2]
      rcases start_cases hstart with rfl | ⟨schedule, rfl⟩
      · exact hserving
      · exact ⟨hserving.represents, hserving.size, hserving.threshold, hserving.idle, hserving.live,
          hserving.attached, hserving.unpadded, hserving.padded⟩

/-- Whatever was returned or thrown before, the next call returns or throws. -/
theorem runs_of_length {p : PaddedRing} (hp : g.padded = some p) (hcb : Reliable g.callbacks)
    (hdefault : g.callbacks = defaultCallbacks g.nextIdsForOneSecond)
    (hqueue : HoldsQueue p.ringBuffer) (n : ℕ) :
    ∃ (outcomes : List (Except Throwable ℤ)) (p' : PaddedRing), outcomes.length = n ∧
      HoldsQueue p'.ringBuffer ∧ Runs g (outcomes.map .getUID) { g with padded := some p' } := by
  induction n with
  | zero => exact ⟨[], p, rfl, hqueue, by rw [← hp]; exact .nil⟩
  | succ n ih =>
    obtain ⟨outcomes, p₁, hlen, hqueue₁, hrun⟩ := ih
    obtain ⟨fuel, out, p₂, htake⟩ := take_total hcb hqueue₁
    obtain ⟨outcome, hget⟩ := getUID_of_take (g := { g with padded := some p₁ }) rfl htake
    refine ⟨outcomes ++ [outcome], p₂, by simp [hlen], ?_, ?_⟩
    · rw [hdefault] at htake
      exact hqueue₁.step (.take htake)
    · rw [List.map_append]
      exact hrun.snoc (.getUID hget)

theorem returns_iff_le_limit {p : PaddedRing} {uids : List ℤ} (hp : g.padded = some p)
    (hcb : Reliable g.callbacks)
    (hreject : g.callbacks.rejectedTakeHandler = exceptionRejectedTakeBuffer)
    (hsize : 2 ≤ bufferSize) (hserving : Serving bufferSize paddingThreshold uids 0 p)
    {outcomes : List (Except Throwable ℤ)} (hrun : Runs g (outcomes.map .getUID) g') :
    (∀ outcome ∈ outcomes, ∃ uid, outcome = .ok uid) ↔
      outcomes.length ≤ takesLimit bufferSize paddingThreshold := by
  have hlimit : 0 ≤ takesLimit bufferSize paddingThreshold := by
    unfold takesLimit
    split_ifs <;> omega
  -- a run that has not failed yet is in a state that serves
  suffices h : ((∀ outcome ∈ outcomes, ∃ uid, outcome = .ok uid) ↔
      outcomes.length ≤ takesLimit bufferSize paddingThreshold) ∧
      ((∀ outcome ∈ outcomes, ∃ uid, outcome = .ok uid) → ∃ p' uids',
        g' = { g with padded := some p' } ∧
          Serving bufferSize paddingThreshold uids' outcomes.length p') from h.1
  induction outcomes using List.reverseRecOn generalizing g' with
  | nil =>
    obtain rfl := run_nil.1 hrun
    exact ⟨by simpa using hlimit, fun _ => ⟨p, uids, by rw [← hp], hserving⟩⟩
  | append_singleton outcomes outcome ih =>
    rw [List.map_append] at hrun
    obtain ⟨mid, hbefore, hstep⟩ := run_snoc.1 hrun
    obtain ⟨hiff, hstate⟩ := ih hbefore
    rw [List.length_append, List.length_singleton, List.forall_mem_append, List.forall_mem_singleton]
    by_cases hall : ∀ outcome ∈ outcomes, ∃ uid, outcome = .ok uid
    · obtain ⟨p₁, uids₁, rfl, hserving₁⟩ := hstate hall
      cases hstep with
      | getUID hget =>
        obtain ⟨out, p₂, htake, rfl, hout⟩ := getUID_take rfl hget
        rcases hserving₁.take hcb hreject hsize (hiff.1 hall) htake with
          ⟨⟨e, rfl⟩, heq⟩ | ⟨uid, uids₂, rfl, hlt, hserving₂⟩
        · have hfails : ¬∃ uid, outcome = .ok uid := by
            rintro ⟨uid, rfl⟩
            cases hout
          refine ⟨iff_of_false (fun h => hfails h.2) (by push_cast; omega), fun h => absurd h.2 hfails⟩
        · have hreturns : ∃ uid, outcome = .ok uid := by
            cases outcome with
            | error e => cases hout
            | ok uid => exact ⟨uid, rfl⟩
          exact ⟨iff_of_true ⟨hall, hreturns⟩ (by push_cast; omega),
            fun _ => ⟨p₂, uids₂, rfl, hserving₂⟩⟩
    · have hover := mt hiff.2 hall
      exact ⟨iff_of_false (fun h => hall h.1) (by push_cast; omega), fun h => absurd h.1 hall⟩

/-- The limit in terms of an integer padding factor. -/
theorem le_takesLimit_iff {factor : ℤ} (hsmall : bufferSize < 2 ^ 32)
    (hthreshold : paddingThreshold = ⌊(bufferSize : ℚ) * factor / 100⌋) (n : ℕ) :
    n ≤ takesLimit bufferSize paddingThreshold ↔
      n ≤ bufferSize ∨ 100 ≤ bufferSize * factor ∧ n ≤ 2 ^ 63 := by
  have hpads : 0 < paddingThreshold ↔ 100 ≤ bufferSize * factor := by
    rw [hthreshold, ← Int.add_one_le_iff, zero_add, Int.le_floor, Int.cast_one,
      le_div_iff₀ (by norm_num), one_mul]
    exact_mod_cast Iff.rfl
  unfold takesLimit
  split_ifs with hzero
  · have hnever : ¬100 ≤ bufferSize * factor := fun h => absurd (hpads.2 h) (by omega)
    simp [hnever]
  · have halways := hpads.1 (by omega)
    constructor
    · intro hle
      exact Or.inr ⟨halways, by exact_mod_cast hle⟩
    · rintro (hle | ⟨-, hle⟩)
      · omega
      · exact_mod_cast hle

/-- With the default handlers all calls of a run return UIDs exactly when there are no
more calls than slots, or the padding factor makes up one UID at least and the
cursor does not wrap. Runs of every length exist. -/
theorem calls_return_iff {factor : ℤ} {fuel : ℕ} (hput : settings.rejectedPutBufferHandler = none)
    (htake : settings.rejectedTakeBufferHandler = none) (hfactor : settings.paddingFactor = factor)
    (hinit : (configured settings).afterPropertiesSet (.ok workerId) now fuel = some (.ok (), g)) :
    ∃ p, g.padded = some p ∧
      (∀ n, ∃ (outcomes : List (Except Throwable ℤ)) (g' : CachedUidGenerator),
        outcomes.length = n ∧ Runs g (outcomes.map .getUID) g') ∧
      ∀ (outcomes : List (Except Throwable ℤ)) (g' : CachedUidGenerator),
        Runs g (outcomes.map .getUID) g' →
        ((∀ outcome ∈ outcomes, ∃ uid, outcome = .ok uid) ↔
          outcomes.length ≤ p.ringBuffer.bufferSize ∨
            100 ≤ p.ringBuffer.bufferSize * factor ∧ outcomes.length ≤ 2 ^ 63) := by
  obtain ⟨L, filled, hready⟩ := ready_of_init hinit
  obtain ⟨p, uids, hp, hcb, hsize, hthreshold, hserving⟩ := hready.serving hput htake
  have hdefault := callbacks_default (hready.rejectedPut.trans hput) (hready.rejectedTake.trans htake)
  refine ⟨p, hp, ?_, ?_⟩
  · intro n
    obtain ⟨outcomes, p', hlen, -, hrun⟩ :=
      runs_of_length hp hcb hdefault ⟨uids, 0, ∅, hserving.represents⟩ n
    exact ⟨outcomes, _, hlen, hrun⟩
  · intro outcomes g' hrun
    rw [returns_iff_le_limit hp hcb (by rw [hdefault]; rfl) hsize hserving hrun]
    rw [hfactor] at hthreshold
    exact le_takesLimit_iff p.ringBuffer.bufferSize_lt hthreshold outcomes.length

/-- Five calls on four slots return, as the third of them asks for a pass. -/
theorem calls_return_iff_four_slots :
    ∃ (g g' : CachedUidGenerator) (outcomes : List (Except Throwable ℤ)),
      (configured fourSlots).afterPropertiesSet (.ok 1) 0 3 = some (.ok (), g) ∧
      Runs g (outcomes.map .getUID) g' ∧ outcomes.length = 5 ∧
      ∀ outcome ∈ outcomes, ∃ uid, outcome = .ok uid := by
  have hfactor : fourSlots.paddingFactor = (50 : ℤ) := rfl
  obtain ⟨p, hp, hruns, hreturns⟩ := calls_return_iff rfl rfl hfactor init_fourSlots
  have hsize : p.ringBuffer.bufferSize = 4 := by
    have hfour : (initialized fourSlots).padded.map (·.ringBuffer.bufferSize) = some 4 := by
      decide +kernel
    rw [hp] at hfour
    exact Option.some.inj hfour
  obtain ⟨outcomes, g', hlen, hrun⟩ := hruns 5
  refine ⟨_, g', outcomes, init_fourSlots, hrun, hlen,
    (hreturns outcomes g' hrun).2 (Or.inr ⟨?_, ?_⟩)⟩
  · rw [hsize]
    decide
  · rw [hlen]
    decide

/-- Less than one UID is 24 percent of four slots, so no take asks for a pass. -/
def zeroThreshold : CachedSettings := { fourSlots with paddingFactor := 24 }

/-- The fifth call finds the ring empty. -/
theorem call_finds_ring_empty :
    ∃ (g g' : CachedUidGenerator) (e : Throwable),
      (configured zeroThreshold).afterPropertiesSet (.ok 1) 0 3 = some (.ok (), g) ∧
      Runs g [.getUID (.ok 10), .getUID (.ok 11), .getUID (.ok 18), .getUID (.ok 19),
        .getUID (.error e)] g' := by
  let g := initialized zeroThreshold
  let next (g : CachedUidGenerator) := ((g.getUID 0).map Prod.snd).getD g
  have hcall (s : CachedUidGenerator) (uid : ℤ) (h : (s.getUID 0).map Prod.fst = some (.ok uid)) :
      Step s (.getUID (.ok uid)) (next s) := .getUID (eq_some_of_map_fst s h)
  have hfails : ((next (next (next (next g)))).getUID 0).map (·.1.toOption) = some none := by
    decide +kernel
  obtain ⟨⟨out, last⟩, hget, hnone⟩ := Option.map_eq_some_iff.1 hfails
  cases out with
  | ok uid => cases hnone
  | error e =>
    exact ⟨g, last, e, eq_some_of_map_fst _ (by decide +kernel),
      .cons (hcall g 10 (by decide +kernel)) (.cons (hcall (next g) 11 (by decide +kernel))
        (.cons (hcall (next (next g)) 18 (by decide +kernel))
          (.cons (hcall (next (next (next g))) 19 (by decide +kernel))
            (.cons (.getUID hget) .nil))))⟩

end CachedUidGenerator

end UID
