import UidGenerator.Spec.BitsAllocator
import UidGenerator.Lib.Run

/-! `default-uid-generator.ts`. The clock is a list of `Date.now()` readings still
to come: a call takes as many as it needs and leaves the rest, and `none` is a
call still waiting when they run out. A call that throws also returns the fields
it has already written. -/

namespace UID

/-- The configured widths and epoch. A setter ignores a width that is not positive. -/
structure Settings where
  timeBits : ℤ := 28
  workerBits : ℤ := 22
  seqBits : ℤ := 13
  epochSeconds : ℤ := toSeconds 1463673600000
  timeBits_pos : 0 < timeBits := by decide
  workerBits_pos : 0 < workerBits := by decide
  seqBits_pos : 0 < seqBits := by decide

/-- `bitsAllocator` is unset until `afterPropertiesSet` builds it. -/
structure DefaultUidGenerator extends Settings where
  bitsAllocator : Option BitsAllocator := none
  workerId : ℤ := 0
  sequence : ℤ := 0
  lastSecond : ℤ := -1

namespace DefaultUidGenerator

def configured (settings : Settings) : DefaultUidGenerator := { toSettings := settings }

/-- The end of `setEpochStr`. -/
def storeEpoch (g : DefaultUidGenerator) (epochSeconds : ℤ) : DefaultUidGenerator :=
  { g with epochSeconds }

def allocatorUndefined (method : String) : Throwable :=
  .typeError s!"Cannot read properties of undefined (reading '{method}')"

def workerIdExceeds (workerId maxWorkerId : ℤ) : Throwable :=
  .error s!"Worker id {workerId} exceeds the max {maxWorkerId}"

/-- `afterPropertiesSet` up to its `await`. -/
def buildAllocator (g : DefaultUidGenerator) : Except Throwable Unit × DefaultUidGenerator :=
  match BitsAllocator.new g.timeBits g.workerBits g.seqBits with
  | .error e => (.error e, g)
  | .ok A => (.ok (), { g with bitsAllocator := some A })

/-- `afterPropertiesSet` from its `await` on: the id is stored before it is checked. -/
def storeWorkerId (g : DefaultUidGenerator) :
    Except Throwable ℤ → Except Throwable Unit × DefaultUidGenerator
  | .error e => (.error e, g)
  | .ok workerId =>
    let g : DefaultUidGenerator := { g with workerId }
    match g.bitsAllocator with
    | none => (.error (allocatorUndefined "getMaxWorkerId"), g)
    | some A =>
      if g.workerId > A.maxWorkerId then (.error (workerIdExceeds g.workerId A.maxWorkerId), g)
      else (.ok (), g)

def afterPropertiesSet (g : DefaultUidGenerator) (assigned : Except Throwable ℤ) :
    Except Throwable Unit × DefaultUidGenerator :=
  match g.buildAllocator with
  | (.error e, g) => (.error e, g)
  | (.ok (), g) => g.storeWorkerId assigned

def timestampBitsExhausted (currentSecond : ℤ) : Throwable :=
  .uidGenerate s!"Timestamp bits is exhausted. Refusing UID generate. Now: {currentSecond}"

def clockMovedBackwards (refusedSeconds : ℤ) : Throwable :=
  .uidGenerate s!"Clock moved backwards. Refusing for {refusedSeconds} seconds"

def getCurrentSecond (g : DefaultUidGenerator) (A : BitsAllocator) (now : ℤ) :
    Except Throwable ℤ :=
  let currentSecond := toSeconds now
  if currentSecond - g.epochSeconds > A.maxDeltaSeconds then
    .error (timestampBitsExhausted currentSecond)
  else .ok currentSecond

/-- `getNextSecond` spins until the clock is past `lastTimestamp`. -/
def getNextSecond (g : DefaultUidGenerator) (A : BitsAllocator) (lastTimestamp : ℤ) :
    List ℤ → Option (Except Throwable ℤ × List ℤ)
  | [] => none
  | now :: clock =>
    match g.getCurrentSecond A now with
    | .error e => some (.error e, clock)
    | .ok timestamp =>
      if timestamp ≤ lastTimestamp then g.getNextSecond A lastTimestamp clock
      else some (.ok timestamp, clock)

/-- The end of `nextId`: record the second and pack the bits. -/
def issue (g : DefaultUidGenerator) (A : BitsAllocator) (currentSecond : ℤ) :
    ℤ × DefaultUidGenerator :=
  let g : DefaultUidGenerator := { g with lastSecond := currentSecond }
  (A.allocate (subtract currentSecond g.epochSeconds) g.workerId g.sequence, g)

/-- `nextId` with the allocator at hand, from its first clock reading on. -/
def nextIdAt (g : DefaultUidGenerator) (A : BitsAllocator) (now : ℤ) (clock : List ℤ) :
    Option (Except Throwable ℤ × DefaultUidGenerator × List ℤ) :=
  match g.getCurrentSecond A now with
  | .error e => some (.error e, g, clock)
  | .ok currentSecond =>
    if currentSecond < g.lastSecond then
      let refusedSeconds := g.lastSecond - currentSecond
      some (.error (clockMovedBackwards refusedSeconds), g, clock)
    else if currentSecond = g.lastSecond then
      let g : DefaultUidGenerator := { g with sequence := and (g.sequence + 1) A.maxSequence }
      if g.sequence = 0 then
        -- exceed the max sequence, wait the next second; the field is already reset
        match g.getNextSecond A g.lastSecond clock with
        | none => none
        | some (.error e, clock) => some (.error e, g, clock)
        | some (.ok nextSecond, clock) =>
          let (uid, g) := g.issue A nextSecond
          some (.ok uid, g, clock)
      else
        let (uid, g) := g.issue A currentSecond
        some (.ok uid, g, clock)
    else
      let (uid, g) := { g with sequence := 0 }.issue A currentSecond
      some (.ok uid, g, clock)

/-- Before initialization the first clock reading is taken, then the read of the
allocator fails. -/
def nextId (g : DefaultUidGenerator) :
    List ℤ → Option (Except Throwable ℤ × DefaultUidGenerator × List ℤ)
  | [] => none
  | now :: clock =>
    match g.bitsAllocator with
    | none => some (.error (allocatorUndefined "getMaxDeltaSeconds"), g, clock)
    | some A => g.nextIdAt A now clock

/-- `getUID` wraps whatever `nextId` throws. -/
def getUID (g : DefaultUidGenerator) (clock : List ℤ) :
    Option (Except Throwable ℤ × DefaultUidGenerator × List ℤ) :=
  match g.nextId clock with
  | none => none
  | some (.error e, g, clock) => some (.error (.uidGenerateCause e), g, clock)
  | some (.ok uid, g, clock) => some (.ok uid, g, clock)

/-- A finished call of `getUID`: the clock readings it took and its outcome. -/
structure Call where
  readings : List ℤ
  outcome : Except Throwable ℤ

def Call.seconds (c : Call) : List ℤ := c.readings.map toSeconds

def CallStep (g : DefaultUidGenerator) (c : Call) (g' : DefaultUidGenerator) : Prop :=
  g.getUID c.readings = some (c.outcome, g', [])

abbrev Calls (g : DefaultUidGenerator) : List Call → DefaultUidGenerator → Prop :=
  Transition.Run CallStep g

def secondOf (g : DefaultUidGenerator) (A : BitsAllocator) (uid : ℤ) : ℤ :=
  g.epochSeconds + (A.parse uid).deltaSeconds

def returned (calls : List Call) : List ℤ := calls.filterMap fun c => c.outcome.toOption

end DefaultUidGenerator

end UID
