import UidGenerator.Lib.Batches
import UidGenerator.Proofs.Reserve

/-! The whole stream of a `CachedUidGenerator`. The ring is a store that is filled from
the seconds after its start and refilled by every take that leaves it below the
threshold, so that each UID and the last borrowed second have a closed form. -/

namespace UID

open RingQueue Transition RingBuffer Batches

variable {cb : Callbacks} {r r' : RingBuffer} {p p' : PaddedRing} {held : Set ℤ} {uids : List ℤ}
  {taken fuel m : ℕ} {f : ℕ → ℕ → ℤ}

/-- What fills a ring can be told from its unread UIDs. -/
theorem RingBuffer.Fills.unique {uidList uidList' : List ℤ} (h : Fills r held uidList r')
    (h' : Fills r held uidList' r') : uidList.map toLong = uidList'.map toLong :=
  List.append_cancel_left (h.unread.symm.trans h'.unread)

/-- A pass over batches of 64-bit UIDs fills the room that the ring has. -/
theorem paddingBuffer_items (hm : 0 < m) (hcb : Reliable cb)
    (hborrowed : ∀ k, borrowed cb p.executor.lastSecond k = items f m k)
    (h : Admits p.ringBuffer held) (hheld : ∀ c ∈ held, c = p.ringBuffer.cursor)
    (hbound : p.ringBuffer.cursor + p.ringBuffer.bufferSize ≤ 2 ^ 63)
    (hidle : p.executor.running = false) {out : Except Throwable Unit}
    (hpad : p.paddingBuffer cb fuel = some (out, p')) :
    Fills p.ringBuffer held
        ((items f m (p.ringBuffer.room / m + 1)).take p.ringBuffer.room) p'.ringBuffer ∧
      p'.executor.lastSecond =
        toLong (p.executor.lastSecond + (p.ringBuffer.room / m + 1 : ℕ)) := by
  obtain ⟨k, calls, mid, -, -, hpass, rfl⟩ :=
    paddingBuffer_passes h hheld (h.tail_add_room hbound) hidle hpad
  obtain ⟨uid, hleast, -, -, rfl⟩ := hpass.ends_full hcb.provides
  have hcount : k = p.ringBuffer.room / m + 1 := by
    apply hleast.unique
    have hlength (k : ℕ) : (borrowed cb p.executor.lastSecond k).length = k * m := by
      rw [hborrowed, length_items f hm]
    change IsLeast {k | p.ringBuffer.room < (borrowed cb p.executor.lastSecond k).length} _
    simp only [hlength]
    exact isLeast_batches hm _
  have hfills : Fills p.ringBuffer held
      ((borrowed cb p.executor.lastSecond k).take p.ringBuffer.room) mid.ringBuffer := hpass.fills
  have hlast := congrArg (·.executor.lastSecond) hpass.state
  rw [hborrowed] at hfills
  rw [hcb.discards, ← hcount]
  exact ⟨hfills, hlast⟩

theorem map_toLong_take_items (hm : 0 < m) (hlong : ∀ i o, IsLong (f i o)) {n k : ℕ} (hle : n ≤ k * m) :
    ((items f m k).take n).map toLong = (items f m k).take n := by
  rw [take_items f hm hle, List.map_map]
  exact List.map_congr_left fun j _ => toLong_eq_self (hlong _ _)

def ProvidesItems (cb : Callbacks) (startSecond : ℤ) (f : ℕ → ℕ → ℤ) (m : ℕ) : Prop :=
  ∀ (lastSecond : ℤ) (c : ℕ), toLong lastSecond = toLong (startSecond + c) → ∀ k,
    borrowed cb lastSecond k = items (fun i => f (c + i)) m k

/-- After `taken` takes the ring has accepted the stream up to its last refill. -/
structure Streams (R : Refills) (paddingThreshold startSecond : ℤ) (f : ℕ → ℕ → ℤ) (taken : ℕ)
    (p : PaddedRing) : Prop where
  reserved : Reserved R.first paddingThreshold (R.stream f (R.made taken)) taken p
  lastSecond : p.executor.lastSecond = toLong (startSecond + R.asked (R.made taken))

variable {R : Refills} {paddingThreshold startSecond : ℤ}

theorem streams_first {paddingFactor : ℚ} {executor : BufferPaddingExecutor} (hcb : Reliable cb)
    (hitems : ProvidesItems cb startSecond f R.size) (hlong : ∀ i o, IsLong (f i o))
    (hnew : RingBuffer.new R.first paddingFactor = .ok r) (hidle : executor.running = false)
    (hlive : executor.bufferPadExecutorsShutdown = false)
    (hstart : executor.lastSecond = toLong startSecond) {out : Except Throwable Unit}
    (hpad : PaddedRing.paddingBuffer cb fuel ⟨r, executor, true⟩ = some (out, p)) :
    Streams R r.paddingThreshold startSecond f 0 p := by
  obtain ⟨hadmits, hsize, htail, hcursor⟩ := admits_new hnew
  have hlt := r.bufferSize_lt
  have hroom : r.room = R.first := by
    rw [room_of_start hcursor htail, hsize, Int.toNat_natCast]
  obtain ⟨uids, hreserved⟩ := reserved_first hcb hnew hidle hlive hpad
  obtain ⟨hfills, hlast⟩ := paddingBuffer_items (p := ⟨r, executor, true⟩) R.size_pos hcb
    (hitems executor.lastSecond 0 (by rw [hstart, toLong_toLong, Nat.cast_zero, add_zero]))
    hadmits (by simp) (by simp only; omega) hidle hpad
  simp only [hroom, Nat.zero_add] at hfills hlast
  have hserves := (serves_new hnew).fills hfills
  rw [List.nil_append, map_toLong_take_items R.size_pos hlong (isLeast_batches R.size_pos _).1.le,
    ← R.stream_zero] at hserves
  have hmade : R.made 0 = 0 := by simp [Refills.made]
  constructor
  · rw [hmade]
    exact { hreserved with serves := hserves }
  · rw [hmade, hlast, hstart, toLong_add_toLong]
    simp [Refills.asked]

structure Streams.Left (R : Refills) (taken : ℕ) (p : PaddedRing) : Prop where
  cursor : p.ringBuffer.cursor + 1 = taken
  tail : p.ringBuffer.tail = R.first + R.made taken * R.refill - 1
  available : taken < R.first + R.made taken * R.refill
  nonempty : p.ringBuffer.cursor ≠ p.ringBuffer.tail
  threshold : p.ringBuffer.paddingThreshold = R.first - R.refill

theorem Streams.left (h : Streams R paddingThreshold startSecond f taken p)
    (hthreshold : paddingThreshold = R.first - R.refill) (hrefill : R.refill < R.first)
    (hbound : (taken : ℤ) + R.first ≤ 2 ^ 63) : Streams.Left R taken p := by
  have hserves := h.reserved.serves
  have hmade := R.made_mul_le taken
  have hcases := R.made_succ_cases taken
  have hlen := R.length_stream f (R.made taken)
  have havailable : taken < R.first + R.made taken * R.refill := by omega
  have hcursor : p.ringBuffer.cursor + 1 = taken := by
    rw [hserves.cursor]
    ring
  have htail : p.ringBuffer.tail = R.first + R.made taken * R.refill - 1 := by
    rw [hserves.represents.tail, hlen, toLong_eq_self ⟨by omega, by push_cast; omega⟩]
    push_cast
    ring
  refine ⟨hcursor, htail, havailable, ?_, h.reserved.threshold.trans hthreshold⟩
  intro heq
  have := hserves.represents.cursor_eq_tail_iff.1 heq
  omega

/-- A take pads the ring exactly when a refill is due. -/
theorem Streams.triggers_iff (h : Streams R paddingThreshold startSecond f taken p)
    (hleft : Streams.Left R taken p) :
    Triggers (moveCursor p taken) taken ↔ R.made (taken + 1) = R.made taken + 1 := by
  have hcases := R.made_succ_cases taken
  have htail := hleft.tail
  have hthreshold := hleft.threshold
  constructor
  · intro htriggers
    have hbelow := htriggers.1
    simp only [moveCursor] at hbelow
    omega
  · intro hdue
    refine ⟨?_, h.reserved.attached⟩
    simp only [moveCursor]
    omega

/-- The pass of a take adds the refill that is due, or nothing. -/
theorem Streams.padded (h : Streams R paddingThreshold startSecond f taken p) (hcb : Reliable cb)
    (hitems : ProvidesItems cb startSecond f R.size) (hlong : ∀ i o, IsLong (f i o))
    (hleft : Streams.Left R taken p) (hbound : (taken : ℤ) + R.first ≤ 2 ^ 63)
    {mid : PaddedRing} {uidList : List ℤ}
    (hpadding : (moveCursor p taken).triggerPadding cb fuel taken = some (.ok (), mid))
    (hfills : Fills (moveCursor p taken).ringBuffer {(taken : ℤ)} uidList mid.ringBuffer) :
    R.stream f (R.made taken) ++ uidList.map toLong = R.stream f (R.made (taken + 1)) ∧
      mid.executor.lastSecond = toLong (startSecond + R.asked (R.made (taken + 1))) := by
  have hcases := R.made_succ_cases taken
  have hdue := h.triggers_iff hleft
  rcases triggerPadding_cases hpadding with ⟨hquiet, -, rfl⟩ | ⟨-, -, herr, -⟩ |
    ⟨htriggers, -, -, out, hpad⟩
  · have hkept : R.made (taken + 1) = R.made taken := by
      rw [hdue] at hquiet
      omega
    obtain rfl : uidList = [] := by
      have htail := hfills.tail
      exact List.length_eq_zero_iff.1 (by omega)
    rw [hkept, List.map_nil, List.append_nil]
    exact ⟨rfl, h.lastSecond⟩
  · cases herr
  · rw [hdue] at htriggers
    have hadmits := (h.reserved.serves.admits.claim hleft.nonempty).2
    rw [hleft.cursor, insert_empty_eq] at hadmits
    have hsize := h.reserved.size
    have hroom : (moveCursor p taken).ringBuffer.room = R.refill := by
      have hroom := RingBuffer.Admits.room_eq hadmits
      have htail := hleft.tail
      simp only [moveCursor, hsize] at hroom ⊢
      omega
    obtain ⟨hfills', hlast⟩ := paddingBuffer_items (p := moveCursor p taken) R.size_pos hcb
      (hitems p.executor.lastSecond (R.asked (R.made taken))
        (by rw [h.lastSecond, toLong_toLong]))
      hadmits (by simp [moveCursor]) (by simp only [moveCursor]; omega) h.reserved.idle hpad
    rw [hroom] at hfills' hlast
    rw [hfills.unique hfills', htriggers,
      map_toLong_take_items R.size_pos (fun _ _ => hlong _ _) (isLeast_batches R.size_pos _).1.le,
      ← R.stream_succ]
    refine ⟨rfl, ?_⟩
    rw [hlast, R.asked_succ]
    simp only [moveCursor]
    rw [h.lastSecond, toLong_add_toLong]
    push_cast
    rw [add_assoc]

theorem Streams.take (h : Streams R paddingThreshold startSecond f taken p) (hcb : Reliable cb)
    (hitems : ProvidesItems cb startSecond f R.size) (hlong : ∀ i o, IsLong (f i o))
    (hthreshold : paddingThreshold = R.first - R.refill) (hrefill : R.refill < R.first)
    (hbound : (taken : ℤ) + R.first ≤ 2 ^ 63) {outcome : Except Throwable ℤ}
    (htake : p.take cb fuel = some (outcome, p')) :
    outcome = .ok (f (R.batch taken) (R.offset taken)) ∧
      Streams R paddingThreshold startSecond f (taken + 1) p' := by
  have hleft := h.left hthreshold hrefill hbound
  obtain ⟨hnowrap, hkeeps⟩ := h.reserved.keeps hbound
  obtain ⟨uid, uidList, mid, htakes⟩ :=
    h.reserved.serves.take hleft.nonempty hnowrap hkeeps htake
  have hpos := R.refill_pos
  obtain ⟨_, _, -, -, hreserved, -⟩ := h.reserved.take hcb hbound (by omega) hleft.nonempty htake
  have hpadding := htakes.padding
  have hfills := htakes.padded.fills
  rw [hleft.cursor] at hpadding hfills
  obtain ⟨hstream, hlast⟩ := h.padded hcb hitems hlong hleft hbound hpadding hfills
  have hstored := htakes.stored
  rw [Refills.stream, List.getElem?_map, List.getElem?_range hleft.available, Option.map_some,
    Option.some.injEq] at hstored
  have hserves := htakes.serves
  rw [hstream] at hserves
  refine ⟨by rw [htakes.returned, hstored], { hreserved with serves := hserves }, ?_⟩
  rw [htakes.rest]
  exact hlast

theorem bitCount_two_pow {n : ℕ} (hn : n ≤ 30) : bitCount (2 ^ n) = 1 := by
  interval_cases n <;> decide

/-- Sizes up to 2 ^ 30 and integer factors between 0 and 100 pass the checks. -/
theorem ringBuffer_new_ok {n : ℕ} (hn : n ≤ 30) {factor : ℤ} (hpos : 0 < factor) (hlt : factor < 100) :
    ∃ r, RingBuffer.new (2 ^ n) factor = .ok r := by
  have hsize : (0 : ℤ) < 2 ^ n := by positivity
  have hmax : (2 : ℤ) ^ n ≤ 2 ^ 30 := pow_le_pow_right₀ (by norm_num) hn
  have hfactor : (factor : ℚ) > 0 ∧ (factor : ℚ) < 100 :=
    ⟨by exact_mod_cast hpos, by exact_mod_cast hlt⟩
  unfold RingBuffer.new
  rw [dif_pos hsize, dif_pos (bitCount_two_pow hn), if_pos hfactor,
    dif_pos (by rw [show MAX_ARRAY_LENGTH = 2 ^ 32 - 1 from rfl]; omega)]
  exact ⟨_, rfl⟩

namespace CachedUidGenerator

variable {settings : CachedSettings} {workerId now factor : ℤ} {g g' : CachedUidGenerator} {L : Layout}
  {filled : PaddedRing}

def futureUid (g : CachedUidGenerator) (L : Layout) (startSecond : ℤ) (i offset : ℕ) : ℤ :=
  L.allocator.allocate (startSecond + 1 + i - g.epochSeconds) g.workerId offset

theorem isLong_futureUid (g : CachedUidGenerator) (L : Layout) (startSecond : ℤ) (i offset : ℕ) :
    IsLong (g.futureUid L startSecond i offset) := by
  rw [futureUid, L.allocate_lor]
  exact isLong_toLong _

theorem providesItems (hA : g.bitsAllocator = some L.allocator) (hs : L.s ≤ 31) (startSecond : ℤ) :
    ProvidesItems g.callbacks startSecond (g.futureUid L startSecond) (2 ^ L.s) := by
  intro lastSecond c hlast k
  have hsecond (i : ℕ) : g.batchUid L (toLong (lastSecond + (1 + i))) =
      g.futureUid L startSecond (c + i) := by
    funext offset
    have hdelta : toLong (toLong (lastSecond + (1 + i)) - g.epochSeconds) =
        toLong (startSecond + 1 + (c + i : ℕ) - g.epochSeconds) := by
      rw [sub_eq_add_neg, toLong_add_toLong, add_assoc, ← toLong_add_toLong lastSecond, hlast,
        toLong_add_toLong]
      push_cast
      congr 1
      ring
    rw [batchUid, subtract, hdelta, L.allocate_toLong, futureUid]
  simp only [borrowed, items, provided_eq hA, if_pos hs, hsecond]

theorem fillRingBuffer_total (hcb : Reliable g.callbacks) (h : HoldsQueue p.ringBuffer)
    (hschedule : p.executor.bufferPadSchedule = none) :
    ∃ fuel g', g.fillRingBuffer p fuel = some (.ok (), g') := by
  obtain ⟨uids, claimed, pending, hrep⟩ := h
  obtain ⟨fuel, filled, hpad⟩ := paddingBuffer_total hcb ⟨uids, claimed, pending, hrep⟩
  obtain ⟨k, added, hborrows, -⟩ := paddingBuffer_cases hrep hpad
  refine ⟨fuel, { g with padded := some filled }, ?_⟩
  simp only [fillRingBuffer, hpad, PaddedRing.start, hborrows.schedule, hschedule]

theorem initRingBuffer_total {n : ℕ} (hA : g.bitsAllocator = some L.allocator)
    (hboost : numberShiftLeft (2 ^ L.s) g.boostPower = 2 ^ n) (hs : L.s ≤ n) (hn : n ≤ 30)
    (hfactor : g.paddingFactor = factor) (hpos : 0 < factor) (hlt : factor < 100)
    (hschedule : g.scheduleInterval = none) (hput : g.rejectedPutBufferHandler = none)
    (htake : g.rejectedTakeBufferHandler = none) :
    ∃ fuel g', g.initRingBuffer L.allocator now fuel = some (.ok (), g') := by
  obtain ⟨r, hnew⟩ := ringBuffer_new_ok hn hpos hlt
  have hlist : roundToDouble (roundToDouble L.allocator.maxSequence + 1) = 2 ^ L.s := listSize_eq L
  have hsize : g.bufferSize L.allocator = 2 ^ n := by
    rw [CachedUidGenerator.bufferSize, hlist, hboost]
  have hcb : Reliable g.callbacks := by
    rw [callbacks_default hput htake]
    exact reliable hA (by omega)
  have hcheck : checkScheduleInterval g.scheduleInterval = .ok () := by
    rw [hschedule]
    rfl
  obtain ⟨fuel, g', hfill⟩ := fillRingBuffer_total
    (p := ⟨r, .new now g.scheduleInterval.isSome, true⟩) hcb ⟨_, _, _, (represents_new hnew).1⟩
    (by rw [hschedule]; rfl)
  refine ⟨fuel, g', ?_⟩
  rw [← hfactor] at hnew
  unfold initRingBuffer
  rw [hsize, hnew]
  simp only [hcheck]
  exact hfill

/-- Without a schedule, settings whose ring is not too large are accepted. -/
theorem init_total {n : ℕ} (ht : settings.timeBits = L.t) (hw : settings.workerBits = L.w)
    (hs : settings.seqBits = L.s) (hboost : numberShiftLeft (2 ^ L.s) settings.boostPower = 2 ^ n)
    (hn : L.s ≤ n) (hn' : n ≤ 30) (hfactor : settings.paddingFactor = factor) (hpos : 0 < factor)
    (hlt : factor < 100) (hschedule : settings.scheduleInterval = none)
    (hput : settings.rejectedPutBufferHandler = none)
    (htake : settings.rejectedTakeBufferHandler = none) (hworker : workerId < 2 ^ L.w) :
    ∃ fuel g, (configured settings).afterPropertiesSet (.ok workerId) now fuel = some (.ok (), g) := by
  have hsuper := DefaultUidGenerator.afterPropertiesSet_of_layout
    (g := (configured settings).toDefaultUidGenerator) ht hw hs hworker
  unfold afterPropertiesSet
  simp only [hsuper]
  exact initRingBuffer_total rfl hboost hn hn' hfactor hpos hlt hschedule hput htake

/-- The stream begins where the first fill ends. -/
theorem Ready.streams {R : Refills} (h : Ready settings workerId now L g filled)
    (hbits : L.s ≤ 31) (hput : settings.rejectedPutBufferHandler = none)
    (htake : settings.rejectedTakeBufferHandler = none) (hsize : R.size = 2 ^ L.s)
    (hfirst : numberShiftLeft (2 ^ L.s) settings.boostPower = R.first) :
    ∃ p r, g.padded = some p ∧ RingBuffer.new R.first settings.paddingFactor = .ok r ∧
      Streams R r.paddingThreshold (toSeconds now) (g.futureUid L (toSeconds now)) 0 p := by
  obtain ⟨r, fuel, hnew, hpad⟩ := h.fill
  obtain ⟨p, hstart, hp⟩ := h.start
  rw [hfirst] at hnew
  have hcb : Reliable g.callbacks := by
    rw [callbacks_default (h.rejectedPut.trans hput) (h.rejectedTake.trans htake)]
    exact reliable h.bitsAllocator hbits
  have hitems := providesItems h.bitsAllocator hbits (toSeconds now)
  rw [← hsize] at hitems
  have hstreams := streams_first hcb hitems (isLong_futureUid g L _) hnew rfl rfl
    (toLong_toLong _).symm hpad
  refine ⟨p, r, hp, hnew, ?_⟩
  rcases start_cases hstart with rfl | ⟨schedule, rfl⟩
  · exact hstreams
  · have hreserved := hstreams.reserved
    exact ⟨⟨hreserved.serves, hreserved.size, hreserved.threshold, hreserved.idle, hreserved.live,
      hreserved.attached, hreserved.started⟩, hstreams.lastSecond⟩

/-- Calls of `getUID` read the stream, one UID each. -/
theorem streams_run {R : Refills} {paddingThreshold startSecond : ℤ} {f : ℕ → ℕ → ℤ} {p : PaddedRing}
    (hp : g.padded = some p) (h : Streams R paddingThreshold startSecond f 0 p)
    (hcb : Reliable g.callbacks) (hitems : ProvidesItems g.callbacks startSecond f R.size)
    (hlong : ∀ i o, IsLong (f i o)) (hthreshold : paddingThreshold = R.first - R.refill)
    (hrefill : R.refill < R.first) {outcomes : List (Except Throwable ℤ)}
    (hbound : outcomes.length + R.first ≤ 2 ^ 63 + 1) (hrun : Runs g (outcomes.map .getUID) g') :
    outcomes = (List.range outcomes.length).map (fun j => .ok (f (R.batch j) (R.offset j))) ∧
      ∃ p', g' = { g with padded := some p' } ∧
        Streams R paddingThreshold startSecond f outcomes.length p' := by
  induction outcomes using List.reverseRecOn generalizing g' with
  | nil =>
    obtain rfl := run_nil.1 hrun
    exact ⟨rfl, p, by rw [← hp], h⟩
  | append_singleton outcomes outcome ih =>
    rw [List.map_append] at hrun
    obtain ⟨mid, hbefore, hstep⟩ := run_snoc.1 hrun
    rw [List.length_append, List.length_singleton] at hbound ⊢
    obtain ⟨houtcomes, p₁, rfl, h₁⟩ := ih (by omega) hbefore
    cases hstep with
    | getUID hget =>
      obtain ⟨out, p₂, htake, rfl, hout⟩ := getUID_take rfl hget
      obtain ⟨rfl, h₂⟩ := h₁.take hcb hitems hlong hthreshold hrefill (by omega) htake
      have hreturns : outcome = .ok (f (R.batch outcomes.length) (R.offset outcomes.length)) := by
        cases outcome with
        | error e => cases hout
        | ok uid => rw [Option.some.inj hout]
      refine ⟨?_, p₂, rfl, h₂⟩
      rw [List.range_succ, List.map_append, ← houtcomes, List.map_singleton, ← hreturns]

/-- The outcomes of the calls and the last borrowed second, in closed form: `M` UIDs a
second, `B` seconds for the `N` slots, `D` calls from pass to pass and `K` seconds a pass. -/
structure ExactStream (A : BitsAllocator) (epochSeconds workerId startSecond : ℤ) (M B N D K : ℕ)
    (outcomes : List (Except Throwable ℤ)) (g : CachedUidGenerator) : Prop where
  lastSecond : ∃ p, g.padded = some p ∧ p.executor.lastSecond =
    toLong (startSecond + B + 1 + ((outcomes.length - 1) / D : ℕ) * K)
  first : ∀ j < outcomes.length, j < N → outcomes[j]? = some (.ok
    (A.allocate (startSecond + 1 + (j / M : ℕ) - epochSeconds) workerId (j % M : ℕ)))
  later : ∀ j < outcomes.length, N ≤ j → outcomes[j]? = some (.ok
    (A.allocate (startSecond + B + 2 + ((j - N) / D : ℕ) * K + ((j - N) % D / M : ℕ) - epochSeconds)
      workerId ((j - N) % D % M : ℕ)))

theorem exactStream_of_streams {R : Refills} {paddingThreshold startSecond : ℤ} {B K : ℕ}
    {p : PaddedRing} {outcomes : List (Except Throwable ℤ)} (hB : R.first / R.size = B)
    (hK : K = R.refill / R.size + 1)
    (houtcomes : outcomes = (List.range outcomes.length).map
      fun j => .ok (g.futureUid L startSecond (R.batch j) (R.offset j)))
    (hp : g'.padded = some p)
    (h : Streams R paddingThreshold startSecond (g.futureUid L startSecond) outcomes.length p) :
    ExactStream L.allocator g.epochSeconds g.workerId startSecond R.size B R.first R.refill K
      outcomes g' := by
  have hcall (j : ℕ) (hj : j < outcomes.length) : outcomes[j]? =
      some (.ok (g.futureUid L startSecond (R.batch j) (R.offset j))) := by
    rw [houtcomes, List.getElem?_map, List.getElem?_range hj, Option.map_some]
  refine ⟨⟨p, hp, ?_⟩, ?_, ?_⟩
  · rw [h.lastSecond, Refills.asked, hB, ← hK, Refills.made]
    push_cast
    congr 1
    ring
  · intro j hj hfirst
    rw [hcall j hj, Refills.batch, Refills.offset, if_pos hfirst, if_pos hfirst, futureUid]
  · intro j hj hlater
    have hnot : ¬j < R.first := by omega
    rw [hcall j hj, Refills.batch, Refills.offset, if_neg hnot, if_neg hnot, futureUid,
      Refills.asked, hB, ← hK]
    congr 4
    push_cast
    ring

/-- All runs of calls exist, and are exact until the sequences of the ring wrap. -/
theorem Ready.exactStream {R : Refills} {B K : ℕ} (h : Ready settings workerId now L g filled)
    (hbits : L.s ≤ 31) (hfactor : settings.paddingFactor = factor)
    (hput : settings.rejectedPutBufferHandler = none)
    (htake : settings.rejectedTakeBufferHandler = none) (hsize : R.size = 2 ^ L.s)
    (hfirst : numberShiftLeft (2 ^ L.s) settings.boostPower = R.first)
    (hB : R.first / R.size = B) (hK : K = R.refill / R.size + 1)
    (hrefill : (R.refill : ℤ) = R.first - R.first * factor / 100) (hlt : R.refill < R.first) :
    (∀ n, ∃ (outcomes : List (Except Throwable ℤ)) (g' : CachedUidGenerator),
      outcomes.length = n ∧ Runs g (outcomes.map .getUID) g') ∧
    ∀ (outcomes : List (Except Throwable ℤ)) (g' : CachedUidGenerator),
      Runs g (outcomes.map .getUID) g' → outcomes.length + R.first ≤ 2 ^ 63 + 1 →
      ExactStream L.allocator settings.epochSeconds workerId (toSeconds now) R.size B R.first
        R.refill K outcomes g' := by
  have hdefault := callbacks_default (h.rejectedPut.trans hput) (h.rejectedTake.trans htake)
  have hcb : Reliable g.callbacks := by
    rw [hdefault]
    exact reliable h.bitsAllocator hbits
  obtain ⟨p, r, hp, hnew, hstreams⟩ := h.streams hbits hput htake hsize hfirst
  rw [hfactor] at hnew
  obtain ⟨hthreshold, -⟩ := threshold_of_integer hnew
  constructor
  · intro n
    obtain ⟨outcomes, p', hlen, -, hrun⟩ :=
      runs_of_length hp hcb hdefault ⟨_, _, _, hstreams.reserved.serves.represents⟩ n
    exact ⟨outcomes, _, hlen, hrun⟩
  · intro outcomes g' hrun hbound
    have hitems := providesItems h.bitsAllocator hbits (toSeconds now)
    rw [← hsize] at hitems
    obtain ⟨houtcomes, p', hg', hstreams'⟩ := streams_run hp hstreams hcb hitems
      (isLong_futureUid g L _) (by omega) hlt hbound hrun
    rw [← h.epochSeconds, ← h.assigned]
    exact exactStream_of_streams hB hK houtcomes (by rw [hg']) hstreams'

/-- Initialization succeeds, and until the sequences of the ring wrap the configuration
determines every UID and the last borrowed second. -/
theorem uid_stream_exact {M B N D K : ℕ}
    (hbits : settings.timeBits + settings.workerBits + settings.seqBits = 63)
    (hboost : settings.seqBits + settings.boostPower ≤ 30)
    (hM : M = 2 ^ settings.seqBits.toNat) (hB : B = 2 ^ settings.boostPower.toNat) (hN : N = M * B)
    (hfactor : settings.paddingFactor = factor) (hpos : 0 < factor) (hlt : factor < 100)
    (hthreshold : 1 ≤ N * factor / 100) (hD : (D : ℤ) = N - N * factor / 100) (hK : K = D / M + 1)
    (hschedule : settings.scheduleInterval = none) (hput : settings.rejectedPutBufferHandler = none)
    (htake : settings.rejectedTakeBufferHandler = none) :
    ∃ A, BitsAllocator.new settings.timeBits settings.workerBits settings.seqBits = .ok A ∧
      ∀ workerId ≤ A.maxWorkerId,
        (∃ fuel g, (configured settings).afterPropertiesSet (.ok workerId) now fuel =
          some (.ok (), g)) ∧
        ∀ fuel g, (configured settings).afterPropertiesSet (.ok workerId) now fuel =
            some (.ok (), g) →
          (∀ n, ∃ (outcomes : List (Except Throwable ℤ)) (g' : CachedUidGenerator),
            outcomes.length = n ∧ Runs g (outcomes.map .getUID) g') ∧
          ∀ (outcomes : List (Except Throwable ℤ)) (g' : CachedUidGenerator),
            Runs g (outcomes.map .getUID) g' → outcomes.length + N ≤ 2 ^ 63 + 1 →
            ExactStream A settings.epochSeconds workerId (toSeconds now) M B N D K outcomes g' := by
  obtain ⟨L, ht, hw, hs⟩ := Layout.exists_of_widths settings.timeBits_pos settings.workerBits_pos
    settings.seqBits_pos hbits
  obtain ⟨b, hb⟩ := Int.eq_ofNat_of_zero_le settings.boostPower_pos.le
  refine ⟨L.allocator, by rw [ht, hw, hs]; exact L.new_eq, fun workerId hworker => ?_⟩
  have hfits : L.s + b ≤ 30 := by omega
  have hrefill : D < N := by omega
  have hboost : numberShiftLeft (2 ^ L.s) settings.boostPower = 2 ^ (L.s + b) := by
    rw [hb]
    exact numberShiftLeft_of_le hfits
  refine ⟨init_total ht hw hs hboost (Nat.le_add_right _ _) hfits hfactor hpos hlt hschedule hput
    htake (Int.lt_of_le_sub_one hworker), fun fuel g hinit => ?_⟩
  obtain ⟨L', filled, hready⟩ := ready_of_init hinit
  obtain rfl : L = L' := Layout.eq_of_widths (ht.symm.trans hready.timeBits)
    (hw.symm.trans hready.workerBits) (hs.symm.trans hready.seqBits)
  rw [hs, Int.toNat_natCast] at hM
  rw [hb, Int.toNat_natCast] at hB
  have hM_pos : 0 < M := hM ▸ Nat.two_pow_pos L.s
  have hslots : (2 : ℤ) ^ (L.s + b) = N := by
    rw [hN, hM, hB, pow_add]
    push_cast
    rfl
  have hN_pos : (0 : ℤ) < N := hslots ▸ (by positivity)
  have hbelow : N * factor / 100 < N :=
    Int.ediv_lt_of_lt_mul (by norm_num) (mul_lt_mul_of_pos_left hlt hN_pos)
  let R : Refills := ⟨M, N, D, hM_pos, by omega⟩
  have hseconds : R.first / R.size = B := by
    change N / M = B
    rw [hN, Nat.mul_div_cancel_left B hM_pos]
  have hfirst : numberShiftLeft (2 ^ L.s) settings.boostPower = R.first := by
    rw [hboost]
    exact hslots
  exact hready.exactStream (R := R) (show L.s ≤ 31 by omega) hfactor hput htake hM hfirst hseconds hK hD
    hrefill

theorem uid_stream_exact_four_slots :
    ∃ (g g' : CachedUidGenerator) (outcomes : List (Except Throwable ℤ)) (p : PaddedRing),
      (configured fourSlots).afterPropertiesSet (.ok 1) 0 3 = some (.ok (), g) ∧
      Runs g (outcomes.map .getUID) g' ∧ outcomes.length = 7 ∧ outcomes[3]? = some (.ok 19) ∧
      outcomes[6]? = some (.ok 50) ∧ g'.padded = some p ∧ p.executor.lastSecond = 9 := by
  obtain ⟨A, hA, hstream⟩ := @uid_stream_exact fourSlots 0 50 2 2 4 2 2 rfl (by decide) rfl
    rfl rfl rfl (by decide) (by decide) (by decide) rfl rfl rfl rfl rfl
  let L : Layout := ⟨60, 2, 1, by decide, by decide, by decide, by decide⟩
  obtain rfl : A = L.allocator := Except.ok.inj (hA.symm.trans L.new_eq)
  obtain ⟨-, hexact⟩ := hstream 1 (by decide)
  obtain ⟨hruns, hexact⟩ := hexact 3 _ init_fourSlots
  obtain ⟨outcomes, g', hlen, hrun⟩ := hruns 7
  obtain ⟨⟨p, hp, hlast⟩, hfirst, hlater⟩ := hexact outcomes g' hrun (by rw [hlen]; decide)
  have hthird := hfirst 3 (by omega) (by decide)
  have hsixth := hlater 6 (by omega) (by decide)
  rw [hlen] at hlast
  exact ⟨_, g', outcomes, p, init_fourSlots, hrun, hlen, hthird.trans (by decide +kernel),
    hsixth.trans (by decide +kernel), hp, hlast.trans (by decide +kernel)⟩

/-- Call number 2 ^ 63 + 1 finds that the cursor has wrapped, and throws. -/
theorem wrapped_call_leaves_stream :
    ∃ (A : BitsAllocator) (g g' : CachedUidGenerator) (outcomes : List (Except Throwable ℤ)),
      BitsAllocator.new 60 2 1 = .ok A ∧
      (configured fourSlots).afterPropertiesSet (.ok 1) 0 3 = some (.ok (), g) ∧
      Runs g (outcomes.map .getUID) g' ∧ outcomes.length = 2 ^ 63 + 1 ∧
      (∃ outcome ∈ outcomes, ∀ uid, outcome ≠ .ok uid) ∧
      ¬ExactStream A fourSlots.epochSeconds 1 (toSeconds 0) 2 2 4 2 2 outcomes g' := by
  let L : Layout := ⟨60, 2, 1, by decide, by decide, by decide, by decide⟩
  obtain ⟨L', filled, hready⟩ := ready_of_init init_fourSlots
  obtain ⟨p, uids, hp, hcb, hsize, hthreshold, hserving⟩ := hready.serving rfl rfl
  have hdefault := callbacks_default hready.rejectedPut hready.rejectedTake
  obtain ⟨outcomes, p', hlen, -, hrun⟩ :=
    runs_of_length hp hcb hdefault ⟨_, _, _, hserving.represents⟩ (2 ^ 63 + 1)
  have hfails : ¬∀ outcome ∈ outcomes, ∃ uid, outcome = .ok uid := by
    rw [returns_iff_le_limit hp hcb (by rw [hdefault]; rfl) hsize hserving hrun, hlen]
    have hslots := p.ringBuffer.bufferSize_lt
    unfold takesLimit
    split_ifs
    · omega
    · norm_num
  push Not at hfails
  refine ⟨L.allocator, _, _, outcomes, L.new_eq, init_fourSlots, hrun, hlen, hfails, fun hexact => ?_⟩
  obtain ⟨outcome, hmem, hnever⟩ := hfails
  obtain ⟨j, hj, hget⟩ := List.mem_iff_getElem.1 hmem
  have hcall := List.getElem?_eq_getElem hj
  rw [hget] at hcall
  rcases Nat.lt_or_ge j 4 with hlt | hge
  · exact hnever _ (Option.some.inj (hcall.symm.trans (hexact.first j hj hlt)))
  · exact hnever _ (Option.some.inj (hcall.symm.trans (hexact.later j hj hge)))

end CachedUidGenerator

end UID
