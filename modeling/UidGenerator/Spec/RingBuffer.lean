import UidGenerator.Spec.Basic

/-! `ring-buffer.ts`. `tail` and `cursor` count puts and takes as 64-bit sequences
from `START_POINT`; a slot's flag says whether it can be put to or taken from.
`take` is given by the steps between which other code can run: the update of the
cursor, and the read of the slot. -/

namespace UID

def START_POINT : ℤ := -1
def CAN_PUT_FLAG : ℤ := 0
def CAN_TAKE_FLAG : ℤ := 1

/-- A buffer that passed the checks of its constructor. -/
structure RingBuffer where
  bufferSize : ℤ
  slots : ℤ → ℤ := fun _ => 0
  flags : ℤ → ℤ := fun _ => CAN_PUT_FLAG
  tail : ℤ := START_POINT
  cursor : ℤ := START_POINT
  paddingThreshold : ℤ
  bufferSize_pos : 0 < bufferSize
  bufferSize_oneBit : bitCount bufferSize = 1
  bufferSize_le : bufferSize ≤ MAX_ARRAY_LENGTH

namespace RingBuffer

def DEFAULT_PADDING_PERCENT : ℚ := 50

/-- The constructor. `initFlags` makes an array of `bufferSize` flags. -/
def new (bufferSize : ℤ) (paddingFactor : ℚ) : Except Throwable RingBuffer :=
  if bufferSize_pos : bufferSize > 0 then
    if bufferSize_oneBit : bitCount bufferSize = 1 then
      if paddingFactor > 0 ∧ paddingFactor < 100 then
        if bufferSize_le : bufferSize ≤ MAX_ARRAY_LENGTH then
          -- Exact. Where the source rounds the quotient up to a whole number, its
          -- threshold is the one of a slightly larger factor; integer factors never do.
          let paddingThreshold := ⌊bufferSize * paddingFactor / 100⌋
          .ok { bufferSize, paddingThreshold, bufferSize_pos, bufferSize_oneBit, bufferSize_le }
        else .error (.rangeError "Invalid array length")
      else .error (.illegalArgument "RingBuffer size must be positive")
    else .error (.illegalArgument "RingBuffer size must be a power of 2")
  else .error (.illegalArgument "RingBuffer size must be positive")

def indexMask (r : RingBuffer) : ℤ := r.bufferSize - 1

/-- `calSlotIndex`: `sequence % bufferSize`. -/
def calSlotIndex (r : RingBuffer) (sequence : ℤ) : ℤ := Int.land sequence r.indexMask

def toJavaString (r : RingBuffer) : String :=
  s!"RingBuffer [bufferSize={r.bufferSize}, tail={r.tail}, cursor={r.cursor}" ++
    s!", paddingThreshold={r.paddingThreshold}]"

def distance (r : RingBuffer) : ℤ := r.tail - if r.cursor = START_POINT then 0 else r.cursor

/-- `put` without its reject handler; `none` is a rejected put. -/
def tryPut (r : RingBuffer) (uid : ℤ) : Option RingBuffer :=
  if r.distance = r.bufferSize - 1 then none
  else
    let nextTailIndex := r.calSlotIndex (r.tail + 1)
    if r.flags nextTailIndex ≠ CAN_PUT_FLAG then none
    else
      let slots := Function.update r.slots nextTailIndex (toLong uid)
      let flags := Function.update r.flags nextTailIndex CAN_TAKE_FLAG
      some { r with slots, flags, tail := toLong (r.tail + 1) }

/-- The first step of `take`: `updateAndGet` on the cursor, and the cursor it returns. -/
def claim (r : RingBuffer) : ℤ × RingBuffer :=
  let nextCursor := toLong (if r.cursor = r.tail then r.cursor else r.cursor + 1)
  (nextCursor, { r with cursor := nextCursor })

/-- The last step of `take`: check the flag, read the slot, reset the flag. -/
def finish (r : RingBuffer) (nextCursor : ℤ) : Except Throwable ℤ × RingBuffer :=
  let nextCursorIndex := r.calSlotIndex nextCursor
  match isTrue (r.flags nextCursorIndex = CAN_TAKE_FLAG) "Curosr not in can take status" with
  | .error e => (.error e, r)
  | .ok () =>
    let uid := r.slots nextCursorIndex
    (.ok uid, { r with flags := Function.update r.flags nextCursorIndex CAN_PUT_FLAG })

def discardPutBuffer (_ : RingBuffer) (_ : ℤ) : Except Throwable Unit := .ok ()

def exceptionRejectedTakeBuffer (r : RingBuffer) : Except Throwable Unit :=
  .error (.error s!"Rejected take buffer. {r.toJavaString}")

def put (rejectedPutHandler : RingBuffer → ℤ → Except Throwable Unit) (r : RingBuffer) (uid : ℤ) :
    Except Throwable Bool × RingBuffer :=
  match r.tryPut uid with
  | some r => (.ok true, r)
  | none =>
    match rejectedPutHandler r uid with
    | .error e => (.error e, r)
    | .ok () => (.ok false, r)

/-- `take` of a ring without an executor, which no pass interrupts. -/
def take (rejectedTakeHandler : RingBuffer → Except Throwable Unit) (r : RingBuffer) :
    Except Throwable ℤ × RingBuffer :=
  let currentCursor := r.cursor
  let (nextCursor, r) := r.claim
  match isTrue (nextCursor ≥ currentCursor) "Curosr can't move back" with
  | .error e => (.error e, r)
  | .ok () =>
    match if nextCursor = currentCursor then rejectedTakeHandler r else .ok () with
    | .error e => (.error e, r)
    | .ok () => r.finish nextCursor

end RingBuffer

/-- A ring, and the cursors of the takes between their two steps. -/
structure RingTakes where
  ring : RingBuffer
  claimed : List ℤ := []

inductive RingEvent
  | put (uid : ℤ) (accepted : Bool)
  /-- The first step of a take; `none` when its cursor did not move forward, so that
  the reject handler or the assertion ends it. -/
  | claim (nextCursor : Option ℤ)
  | finish (nextCursor : ℤ) (outcome : Except Throwable ℤ)

inductive RingStep : RingTakes → RingEvent → RingTakes → Prop
  | accepted {r r' : RingBuffer} {claimed : List ℤ} {uid : ℤ} (h : r.tryPut uid = some r') :
      RingStep ⟨r, claimed⟩ (.put uid true) ⟨r', claimed⟩
  | rejected {r : RingBuffer} {claimed : List ℤ} {uid : ℤ} (h : r.tryPut uid = none) :
      RingStep ⟨r, claimed⟩ (.put uid false) ⟨r, claimed⟩
  | claim {r r' : RingBuffer} {claimed : List ℤ} {nextCursor : ℤ}
      (h : r.claim = (nextCursor, r')) (forward : r.cursor < nextCursor) :
      RingStep ⟨r, claimed⟩ (.claim (some nextCursor)) ⟨r', nextCursor :: claimed⟩
  | stuck {r r' : RingBuffer} {claimed : List ℤ} {nextCursor : ℤ}
      (h : r.claim = (nextCursor, r')) (back : nextCursor ≤ r.cursor) :
      RingStep ⟨r, claimed⟩ (.claim none) ⟨r', claimed⟩
  | finish {r r' : RingBuffer} {claimed : List ℤ} {nextCursor : ℤ} {outcome : Except Throwable ℤ}
      (own : nextCursor ∈ claimed) (h : r.finish nextCursor = (outcome, r')) :
      RingStep ⟨r, claimed⟩ (.finish nextCursor outcome) ⟨r', claimed.erase nextCursor⟩

/-- The steps with take handlers that may return: a take that has found the ring empty
then goes on to the slot at its cursor. -/
inductive HandledStep : RingTakes → RingEvent → RingTakes → Prop
  | step {s s' : RingTakes} {e : RingEvent} (h : RingStep s e s') : HandledStep s e s'
  | handled {r r' : RingBuffer} {claimed : List ℤ} {nextCursor : ℤ}
      (h : r.claim = (nextCursor, r')) (same : nextCursor = r.cursor) :
      HandledStep ⟨r, claimed⟩ (.claim none) ⟨r', nextCursor :: claimed⟩

namespace RingEvent

def acceptedUid : RingEvent → Option ℤ
  | put uid true => some uid
  | _ => none

def claimedCursor : RingEvent → Option ℤ
  | claim nextCursor => nextCursor
  | _ => none

def finishedCursor : RingEvent → Option ℤ
  | finish nextCursor _ => some nextCursor
  | _ => none

end RingEvent

def acceptedUids (events : List RingEvent) : List ℤ := events.filterMap (·.acceptedUid)

def claims (events : List RingEvent) : List ℤ := events.filterMap (·.claimedCursor)

def finishes (events : List RingEvent) : List ℤ := events.filterMap (·.finishedCursor)

end UID
