import UidGenerator.Spec.BufferPaddingExecutor
import UidGenerator.Spec.DefaultUidGenerator

/-! `cached-uid-generator.ts`: a generator that borrows whole seconds from the future
into a ring. -/

namespace UID

/-- The configured properties, with what their setters check. -/
structure CachedSettings extends Settings where
  boostPower : ℤ := 3
  paddingFactor : ℚ := RingBuffer.DEFAULT_PADDING_PERCENT
  scheduleInterval : Option ℤ := none
  rejectedPutBufferHandler : Option (RingBuffer → ℤ → Except Throwable Unit) := none
  rejectedTakeBufferHandler : Option (RingBuffer → Except Throwable Unit) := none
  boostPower_pos : 0 < boostPower := by decide
  scheduleInterval_pos : ∀ interval ∈ scheduleInterval, 0 < interval := by simp

/-- `padded` is the ring with its executor, unset until `initRingBuffer` makes them. -/
structure CachedUidGenerator extends DefaultUidGenerator, CachedSettings where
  padded : Option PaddedRing := none

namespace CachedUidGenerator

open DefaultUidGenerator (allocatorUndefined)

def configured (settings : CachedSettings) : CachedUidGenerator :=
  { DefaultUidGenerator.configured settings.toSettings, settings with padded := none }

/-- The UIDs of one second: the first is allocated, the others are offsets from it. -/
def nextIdsForOneSecond (g : CachedUidGenerator) (currentSecond : ℤ) :
    Except Throwable (List ℤ) :=
  match g.bitsAllocator with
  | none => .error (allocatorUndefined "getMaxSequence")
  | some A =>
    -- `Number(maxSequence) + 1`, a double
    let listSize := roundToDouble (roundToDouble A.maxSequence + 1)
    if listSize > MAX_ARRAY_LENGTH then .error (.rangeError "Invalid array length")
    else
      let firstSeqUid := A.allocate (subtract currentSecond g.epochSeconds) g.workerId 0
      .ok ((List.range listSize.toNat).map fun offset : ℕ => add firstSeqUid offset)

def callbacks (g : CachedUidGenerator) : Callbacks where
  uidProvider := g.nextIdsForOneSecond
  rejectedPutHandler := g.rejectedPutBufferHandler.getD RingBuffer.discardPutBuffer
  rejectedTakeHandler := g.rejectedTakeBufferHandler.getD RingBuffer.exceptionRejectedTakeBuffer

/-- The check of `BufferPaddingExecutor.setScheduleInterval`. -/
def checkScheduleInterval : Option ℤ → Except Throwable Unit
  | none => .ok ()
  | some interval => isTrue (interval > 0) "Schedule interval must positive!"

def bufferSize (g : CachedUidGenerator) (A : BitsAllocator) : ℤ :=
  numberShiftLeft (roundToDouble (roundToDouble A.maxSequence + 1)) g.boostPower

/-- The end of `initRingBuffer`: fill in all slots, then start the schedule. -/
def fillRingBuffer (g : CachedUidGenerator) (p : PaddedRing) (fuel : ℕ) :
    Option (Except Throwable Unit × CachedUidGenerator) :=
  match p.paddingBuffer g.callbacks fuel with
  | none => none
  | some (.error e, p) => some (.error e, { g with padded := some p })
  | some (.ok (), p) =>
    let (outcome, p) := p.start
    some (outcome, { g with padded := some p })

/-- `initRingBuffer`, with the clock reading that starts the executor. -/
def initRingBuffer (g : CachedUidGenerator) (A : BitsAllocator) (now : ℤ) (fuel : ℕ) :
    Option (Except Throwable Unit × CachedUidGenerator) :=
  match RingBuffer.new (g.bufferSize A) g.paddingFactor with
  | .error e => some (.error e, g)
  | .ok ringBuffer =>
    let executor := BufferPaddingExecutor.new now g.scheduleInterval.isSome
    match checkScheduleInterval g.scheduleInterval with
    | .error e =>
      let p : PaddedRing := { ringBuffer, executor, attached := false }
      some (.error e, { g with padded := some p })
    | .ok () => g.fillRingBuffer { ringBuffer, executor } fuel

def afterPropertiesSet (g : CachedUidGenerator) (assigned : Except Throwable ℤ) (now : ℤ)
    (fuel : ℕ) : Option (Except Throwable Unit × CachedUidGenerator) :=
  match g.toDefaultUidGenerator.afterPropertiesSet assigned with
  | (.error e, super) => some (.error e, { g with toDefaultUidGenerator := super })
  | (.ok (), super) =>
    let g : CachedUidGenerator := { g with toDefaultUidGenerator := super }
    match g.bitsAllocator with
    | none => some (.error (allocatorUndefined "getMaxSequence"), g)
    | some A => g.initRingBuffer A now fuel

def ringBufferUndefined : Throwable :=
  .typeError "Cannot read properties of undefined (reading 'take')"

def executorUndefined : Throwable :=
  .typeError "Cannot read properties of undefined (reading 'shutdown')"

def getUID (g : CachedUidGenerator) (fuel : ℕ) :
    Option (Except Throwable ℤ × CachedUidGenerator) :=
  match g.padded with
  | none => some (.error (.uidGenerateCause ringBufferUndefined), g)
  | some p =>
    match p.take g.callbacks fuel with
    | none => none
    | some (.error e, p) => some (.error (.uidGenerateCause e), { g with padded := some p })
    | some (.ok uid, p) => some (.ok uid, { g with padded := some p })

def destroy (g : CachedUidGenerator) : Except Throwable Unit × CachedUidGenerator :=
  match g.padded with
  | none => (.error executorUndefined, g)
  | some p => (.ok (), { g with padded := some p.shutdown })

inductive Event
  | getUID (outcome : Except Throwable ℤ)
  /-- A call of `paddingBuffer()` on the generator's executor. -/
  | paddingBuffer (outcome : Except Throwable Unit)
  /-- A timer of the schedule fires. -/
  | fire (timer : ℕ)
  | destroy (outcome : Except Throwable Unit)

inductive Step : CachedUidGenerator → Event → CachedUidGenerator → Prop
  | getUID {g g' : CachedUidGenerator} {fuel : ℕ} {outcome : Except Throwable ℤ}
      (h : g.getUID fuel = some (outcome, g')) : Step g (.getUID outcome) g'
  | paddingBuffer {g : CachedUidGenerator} {p p' : PaddedRing} {fuel : ℕ}
      {outcome : Except Throwable Unit} (made : g.padded = some p)
      (h : p.paddingBuffer g.callbacks fuel = some (outcome, p')) :
      Step g (.paddingBuffer outcome) { g with padded := some p' }
  | fire {g : CachedUidGenerator} {p p' : PaddedRing} {fuel : ℕ}
      {schedule : ScheduledExecutorService} {timer : ℕ} (made : g.padded = some p)
      (scheduled : p.executor.bufferPadSchedule = some schedule) (armed : timer ∈ schedule.armed)
      (h : p.fire g.callbacks fuel timer = some p') :
      Step g (.fire timer) { g with padded := some p' }
  | destroy {g g' : CachedUidGenerator} {outcome : Except Throwable Unit}
      (h : g.destroy = (outcome, g')) : Step g (.destroy outcome) g'

abbrev Runs (g : CachedUidGenerator) : List Event → CachedUidGenerator → Prop :=
  Transition.Run Step g

def Event.uid : Event → Option ℤ
  | getUID outcome => outcome.toOption
  | _ => none

def returnedUids (events : List Event) : List ℤ := events.filterMap (·.uid)

def Event.outcome : Event → Option (Except Throwable ℤ)
  | getUID outcome => some outcome
  | _ => none

def callOutcomes (events : List Event) : List (Except Throwable ℤ) := events.filterMap (·.outcome)

/-- The event asks for a pass, whether UIDs are missing or not. -/
def Event.asksForPass : Event → Bool
  | paddingBuffer _ => true
  | fire _ => true
  | _ => false

end CachedUidGenerator

end UID
