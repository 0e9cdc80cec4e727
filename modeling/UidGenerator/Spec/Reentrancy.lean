import UidGenerator.Spec.BufferPaddingExecutor

/-! The ring and its executor when the provider and the reject handlers call back. All
code shares one stack: a function of the component that waits for user code is a
frame, and the user code above it may call the component again before it answers.
What user code does is up to the run; the answer of a function is what it returns or
throws. -/

namespace UID

inductive Caller
  | code
  /-- `asyncPadding`, through `submit`. -/
  | submitted
  | timer
  /-- A take below the threshold, through `asyncPadding`. -/
  | take (currentCursor nextCursor : ℤ)

/-- A function of the component that waits for user code. -/
inductive Frame
  /-- A pass waits for the UIDs of a second. -/
  | uidProvider (caller : Caller)
  /-- A put waits for its reject handler: a put of the pass, if there is one. -/
  | rejectedPutHandler (pass : Option Caller) (uid : ℤ)
  | rejectedTakeHandler (nextCursor : ℤ)

inductive Reply
  | nothing
  | unit (outcome : Except Throwable Unit)
  | accepted (outcome : Except Throwable Bool)
  | uid (outcome : Except Throwable ℤ)

structure Machine where
  padded : PaddedRing
  stack : List Frame := []
  reply : Reply := .nothing

namespace Machine

def running (m : Machine) : Bool := m.padded.executor.running

def setRingBuffer (m : Machine) (ringBuffer : RingBuffer) : Machine :=
  { m with padded := { m.padded with ringBuffer } }

def wait (m : Machine) (frame : Frame) : Machine :=
  { m with stack := frame :: m.stack, reply := .nothing }

def put (m : Machine) (uid : ℤ) : Machine :=
  match m.padded.ringBuffer.tryPut uid with
  | some r => { m.setRingBuffer r with reply := .accepted (.ok true) }
  | none => m.wait (.rejectedPutHandler none uid)

def finish (m : Machine) (nextCursor : ℤ) : Machine :=
  let (outcome, r) := m.padded.ringBuffer.finish nextCursor
  { m.setRingBuffer r with reply := .uid outcome }

def readSlot (m : Machine) (currentCursor nextCursor : ℤ) : Machine :=
  if nextCursor = currentCursor then m.wait (.rejectedTakeHandler nextCursor)
  else m.finish nextCursor

/-- A pass returns or throws. `submit` and the timer only log what it throws. -/
def leavePass (m : Machine) (outcome : Except Throwable Unit) : Caller → Machine
  | .code => { m with reply := .unit outcome }
  | .submitted => { m with reply := .unit (.ok ()) }
  | .timer =>
    match m.padded.executor.bufferPadSchedule with
    | none => { m with reply := .nothing }
    | some schedule => { m with padded := m.padded.setSchedule schedule.arm, reply := .nothing }
  | .take currentCursor nextCursor => m.readSlot currentCursor nextCursor

/-- The head of the loop of `paddingBuffer`. -/
def askProvider (m : Machine) (caller : Caller) : Machine :=
  { m with padded := m.padded.nextSecond }.wait (.uidProvider caller)

def paddingBuffer (m : Machine) (caller : Caller) : Machine :=
  if m.running then m.leavePass (.ok ()) caller
  else { m with padded := m.padded.setRunning true }.askProvider caller

/-- The rest of the loop of `paddingBuffer`, up to a put that is rejected. -/
def putAll (m : Machine) (caller : Caller) : List ℤ → Machine
  | [] => m.askProvider caller
  | uid :: uidList =>
    match m.padded.ringBuffer.tryPut uid with
    | some r => (m.setRingBuffer r).putAll caller uidList
    | none => m.wait (.rejectedPutHandler (some caller) uid)

def asyncPadding (m : Machine) : Machine :=
  if m.padded.executor.bufferPadExecutorsShutdown then
    { m with reply := .unit (.error taskRejected) }
  else m.paddingBuffer .submitted

def take (m : Machine) : Machine :=
  let currentCursor := m.padded.ringBuffer.cursor
  let (nextCursor, r) := m.padded.ringBuffer.claim
  let m := m.setRingBuffer r
  match isTrue (nextCursor ≥ currentCursor) "Curosr can't move back" with
  | .error e => { m with reply := .uid (.error e) }
  | .ok () =>
    if m.padded.ringBuffer.tail - nextCursor < m.padded.ringBuffer.paddingThreshold ∧
        m.padded.attached then
      if m.padded.executor.bufferPadExecutorsShutdown then
        { m with reply := .uid (.error taskRejected) }
      else m.paddingBuffer (.take currentCursor nextCursor)
    else m.readSlot currentCursor nextCursor

def fire (m : Machine) (schedule : ScheduledExecutorService) (timer : ℕ) : Machine :=
  let m : Machine :=
    { m with padded := m.padded.setSchedule { schedule with armed := schedule.armed.erase timer } }
  if schedule.shutdown then { m with reply := .nothing } else m.paddingBuffer .timer

def provided (m : Machine) (caller : Caller) : Except Throwable (List ℤ) → Machine
  | .error e => m.leavePass (.error e) caller
  | .ok uidList => m.putAll caller uidList

/-- A put is rejected; one of a pass ends the pass, which is not running any more
unless the handler throws. -/
def putHandled (m : Machine) (answer : Except Throwable Unit) : Option Caller → Machine
  | none => { m with reply := .accepted (answer.map fun _ => false) }
  | some caller =>
    match answer with
    | .error e => m.leavePass (.error e) caller
    | .ok () => { m with padded := m.padded.setRunning false }.leavePass (.ok ()) caller

def takeHandled (m : Machine) (nextCursor : ℤ) : Except Throwable Unit → Machine
  | .error e => { m with reply := .uid (.error e) }
  | .ok () => m.finish nextCursor

end Machine

inductive MachineEvent
  | put (uid : ℤ)
  | take
  | paddingBuffer
  | asyncPadding
  | start
  | shutdown
  | fire (timer : ℕ)
  | provided (answer : Except Throwable (List ℤ))
  | putHandled (answer : Except Throwable Unit)
  | takeHandled (answer : Except Throwable Unit)

/-- Timers fire when no code runs; all else is done by the code on top of the stack. -/
inductive MachineStep : Machine → MachineEvent → Machine → Prop
  | put {m : Machine} {uid : ℤ} : MachineStep m (.put uid) (m.put uid)
  | take {m : Machine} : MachineStep m .take m.take
  | paddingBuffer {m : Machine} : MachineStep m .paddingBuffer (m.paddingBuffer .code)
  | asyncPadding {m : Machine} : MachineStep m .asyncPadding m.asyncPadding
  | start {m : Machine} {outcome : Except Throwable Unit} {p : PaddedRing}
      (h : m.padded.start = (outcome, p)) :
      MachineStep m .start { m with padded := p, reply := .unit outcome }
  | shutdown {m : Machine} :
      MachineStep m .shutdown { m with padded := m.padded.shutdown, reply := .unit (.ok ()) }
  | fire {m : Machine} {schedule : ScheduledExecutorService} {timer : ℕ} (idle : m.stack = [])
      (scheduled : m.padded.executor.bufferPadSchedule = some schedule)
      (armed : timer ∈ schedule.armed) : MachineStep m (.fire timer) (m.fire schedule timer)
  | provided {m : Machine} {caller : Caller} {stack : List Frame}
      {answer : Except Throwable (List ℤ)} (top : m.stack = .uidProvider caller :: stack) :
      MachineStep m (.provided answer) ({ m with stack }.provided caller answer)
  | putHandled {m : Machine} {pass : Option Caller} {uid : ℤ} {stack : List Frame}
      {answer : Except Throwable Unit} (top : m.stack = .rejectedPutHandler pass uid :: stack) :
      MachineStep m (.putHandled answer) ({ m with stack }.putHandled answer pass)
  | takeHandled {m : Machine} {nextCursor : ℤ} {stack : List Frame}
      {answer : Except Throwable Unit} (top : m.stack = .rejectedTakeHandler nextCursor :: stack) :
      MachineStep m (.takeHandled answer) ({ m with stack }.takeHandled nextCursor answer)

inductive UserCall
  | uidProvider (second : ℤ)
  | rejectedPutHandler (uid : ℤ)
  | rejectedTakeHandler

def Machine.userCall (m : Machine) : Option UserCall :=
  match m.stack with
  | [] => none
  | .uidProvider _ :: _ => some (.uidProvider m.padded.executor.lastSecond)
  | .rejectedPutHandler _ uid :: _ => some (.rejectedPutHandler uid)
  | .rejectedTakeHandler _ :: _ => some .rejectedTakeHandler

def Frame.isPass : Frame → Bool
  | .uidProvider _ => true
  | .rejectedPutHandler pass _ => pass.isSome
  | .rejectedTakeHandler _ => false

def Machine.passes (m : Machine) : ℕ := m.stack.countP Frame.isPass

/-- The provider, or the handler of a put, throws to the pass that called it. -/
def ThrowsIntoPass (m : Machine) (e : MachineEvent) : Prop :=
  (∃ frame ∈ m.stack.head?, frame.isPass = true) ∧
    ∃ error, e = .provided (.error error) ∨ e = .putHandled (.error error)

end UID
