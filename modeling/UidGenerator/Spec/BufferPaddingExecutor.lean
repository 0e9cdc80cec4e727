import UidGenerator.Spec.RingBuffer
import UidGenerator.Lib.Run

/-! `buffer-padding-executor.ts` with the executors of `executors.ts`, and the
`take` that triggers it. A pool runs a submitted task on the caller's stack, so a
padding pass is part of the call that asks for it; here the provider and the reject
handlers do not call back. `none` is a pass that runs out of fuel. -/

namespace UID

structure Callbacks where
  uidProvider : ℤ → Except Throwable (List ℤ)
  rejectedPutHandler : RingBuffer → ℤ → Except Throwable Unit := RingBuffer.discardPutBuffer
  rejectedTakeHandler : RingBuffer → Except Throwable Unit :=
    RingBuffer.exceptionRejectedTakeBuffer

def taskRejected : Throwable :=
  .rejectedExecution "Task rejected from a shut down executor"

structure ScheduledExecutorService where
  shutdown : Bool := false
  timer : Option ℕ := none
  armed : List ℕ := []
  nextTimer : ℕ := 0

namespace ScheduledExecutorService

def arm (s : ScheduledExecutorService) : ScheduledExecutorService :=
  { s with timer := some s.nextTimer, armed := s.armed ++ [s.nextTimer], nextTimer := s.nextTimer + 1 }

def scheduleWithFixedDelay (s : ScheduledExecutorService) :
    Except Throwable ScheduledExecutorService :=
  if s.shutdown then .error taskRejected else .ok s.arm

/-- Only the last timer is cleared. -/
def shutdownNow (s : ScheduledExecutorService) : ScheduledExecutorService :=
  match s.timer with
  | none => { s with shutdown := true }
  | some timer => { s with shutdown := true, timer := none, armed := s.armed.erase timer }

end ScheduledExecutorService

structure BufferPaddingExecutor where
  running : Bool := false
  lastSecond : ℤ
  bufferPadExecutorsShutdown : Bool := false
  bufferPadSchedule : Option ScheduledExecutorService := none

def BufferPaddingExecutor.new (now : ℤ) (usingSchedule : Bool) : BufferPaddingExecutor where
  lastSecond := toSeconds now
  bufferPadSchedule := if usingSchedule then some {} else none

/-- A ring and the executor that pads it; `attached` once the ring knows the executor. -/
structure PaddedRing where
  ringBuffer : RingBuffer
  executor : BufferPaddingExecutor
  attached : Bool := true

/-- The inner loop of `paddingBuffer`; `true` when the ring rejected a UID. -/
def putAll (cb : Callbacks) (r : RingBuffer) : List ℤ → Except Throwable Bool × RingBuffer
  | [] => (.ok false, r)
  | uid :: uidList =>
    match r.put cb.rejectedPutHandler uid with
    | (.error e, r) => (.error e, r)
    | (.ok false, r) => (.ok true, r)
    | (.ok true, r) => putAll cb r uidList

namespace PaddedRing

def nextSecond (p : PaddedRing) : PaddedRing :=
  { p with executor := { p.executor with lastSecond := toLong (p.executor.lastSecond + 1) } }

def setRunning (p : PaddedRing) (running : Bool) : PaddedRing :=
  { p with executor := { p.executor with running } }

def paddingLoop (cb : Callbacks) : ℕ → PaddedRing → Option (Except Throwable Unit × PaddedRing)
  | 0, _ => none
  | fuel + 1, p =>
    let p := p.nextSecond
    match cb.uidProvider p.executor.lastSecond with
    | .error e => some (.error e, p)
    | .ok uidList =>
      match putAll cb p.ringBuffer uidList with
      | (.error e, r) => some (.error e, { p with ringBuffer := r })
      | (.ok true, r) => some (.ok (), { p with ringBuffer := r })
      | (.ok false, r) => paddingLoop cb fuel { p with ringBuffer := r }

/-- A pass that throws leaves the loop with `running` still set. -/
def paddingBuffer (cb : Callbacks) (fuel : ℕ) (p : PaddedRing) :
    Option (Except Throwable Unit × PaddedRing) :=
  if p.executor.running then some (.ok (), p)
  else
    match paddingLoop cb fuel (p.setRunning true) with
    | none => none
    | some (.error e, p) => some (.error e, p)
    | some (.ok (), p) => some (.ok (), p.setRunning false)

/-- `submit` reports the error that its task throws to the worker's handler, which logs it;
what is thrown is an `Error`, and logging does not throw. -/
def asyncPadding (cb : Callbacks) (fuel : ℕ) (p : PaddedRing) :
    Option (Except Throwable Unit × PaddedRing) :=
  if p.executor.bufferPadExecutorsShutdown then some (.error taskRejected, p)
  else
    match p.paddingBuffer cb fuel with
    | none => none
    | some (_, p) => some (.ok (), p)

def triggerPadding (cb : Callbacks) (fuel : ℕ) (p : PaddedRing) (nextCursor : ℤ) :
    Option (Except Throwable Unit × PaddedRing) :=
  if p.ringBuffer.tail - nextCursor < p.ringBuffer.paddingThreshold ∧ p.attached then
    p.asyncPadding cb fuel
  else some (.ok (), p)

/-- The rest of `take` after the pass: reject an empty ring, then read the slot. -/
def readSlot (cb : Callbacks) (p : PaddedRing) (currentCursor nextCursor : ℤ) :
    Except Throwable ℤ × PaddedRing :=
  match if nextCursor = currentCursor then cb.rejectedTakeHandler p.ringBuffer else .ok () with
  | .error e => (.error e, p)
  | .ok () =>
    let (outcome, r) := p.ringBuffer.finish nextCursor
    (outcome, { p with ringBuffer := r })

def take (cb : Callbacks) (fuel : ℕ) (p : PaddedRing) :
    Option (Except Throwable ℤ × PaddedRing) :=
  let currentCursor := p.ringBuffer.cursor
  let (nextCursor, r) := p.ringBuffer.claim
  let p : PaddedRing := { p with ringBuffer := r }
  match isTrue (nextCursor ≥ currentCursor) "Curosr can't move back" with
  | .error e => some (.error e, p)
  | .ok () =>
    match p.triggerPadding cb fuel nextCursor with
    | none => none
    | some (.error e, p) => some (.error e, p)
    | some (.ok (), p) => some (p.readSlot cb currentCursor nextCursor)

def setSchedule (p : PaddedRing) (schedule : ScheduledExecutorService) : PaddedRing :=
  { p with executor := { p.executor with bufferPadSchedule := some schedule } }

def start (p : PaddedRing) : Except Throwable Unit × PaddedRing :=
  match p.executor.bufferPadSchedule with
  | none => (.ok (), p)
  | some schedule =>
    match schedule.scheduleWithFixedDelay with
    | .error e => (.error e, p)
    | .ok schedule => (.ok (), p.setSchedule schedule)

def shutdown (p : PaddedRing) : PaddedRing :=
  let p : PaddedRing :=
    { p with executor := { p.executor with bufferPadExecutorsShutdown := true } }
  match p.executor.bufferPadSchedule with
  | none => p
  | some schedule => if schedule.shutdown then p else p.setSchedule schedule.shutdownNow

/-- An armed timer fires: it runs a pass, whose error is only logged, and arms the next. -/
def fire (cb : Callbacks) (fuel : ℕ) (p : PaddedRing) (timer : ℕ) : Option PaddedRing :=
  match p.executor.bufferPadSchedule with
  | none => some p
  | some schedule =>
    let p := p.setSchedule { schedule with armed := schedule.armed.erase timer }
    if schedule.shutdown then some p
    else
      match p.paddingBuffer cb fuel with
      | none => none
      | some (_, p) =>
        match p.executor.bufferPadSchedule with
        | none => some p
        | some schedule => some (p.setSchedule schedule.arm)

end PaddedRing

inductive PaddedEvent
  | put (uid : ℤ) (outcome : Except Throwable Bool)
  | take (outcome : Except Throwable ℤ)
  | paddingBuffer (outcome : Except Throwable Unit)
  | asyncPadding (outcome : Except Throwable Unit)
  | start (outcome : Except Throwable Unit)
  | shutdown
  | fire (timer : ℕ)

def PaddedEvent.uid : PaddedEvent → Option ℤ
  | take outcome => outcome.toOption
  | _ => none

inductive PaddedStep (cb : Callbacks) : PaddedRing → PaddedEvent → PaddedRing → Prop
  | put {p : PaddedRing} {uid : ℤ} {outcome : Except Throwable Bool} {r : RingBuffer}
      (h : p.ringBuffer.put cb.rejectedPutHandler uid = (outcome, r)) :
      PaddedStep cb p (.put uid outcome) { p with ringBuffer := r }
  | take {p p' : PaddedRing} {fuel : ℕ} {outcome : Except Throwable ℤ}
      (h : p.take cb fuel = some (outcome, p')) : PaddedStep cb p (.take outcome) p'
  | paddingBuffer {p p' : PaddedRing} {fuel : ℕ} {outcome : Except Throwable Unit}
      (h : p.paddingBuffer cb fuel = some (outcome, p')) :
      PaddedStep cb p (.paddingBuffer outcome) p'
  | asyncPadding {p p' : PaddedRing} {fuel : ℕ} {outcome : Except Throwable Unit}
      (h : p.asyncPadding cb fuel = some (outcome, p')) : PaddedStep cb p (.asyncPadding outcome) p'
  | start {p p' : PaddedRing} {outcome : Except Throwable Unit} (h : p.start = (outcome, p')) :
      PaddedStep cb p (.start outcome) p'
  | shutdown {p : PaddedRing} : PaddedStep cb p .shutdown p.shutdown
  | fire {p p' : PaddedRing} {fuel : ℕ} {schedule : ScheduledExecutorService} {timer : ℕ}
      (scheduled : p.executor.bufferPadSchedule = some schedule) (armed : timer ∈ schedule.armed)
      (h : p.fire cb fuel timer = some p') : PaddedStep cb p (.fire timer) p'

end UID
