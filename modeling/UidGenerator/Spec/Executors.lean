import UidGenerator.Lib.OrderedMap
import UidGenerator.Spec.BufferPaddingExecutor
import UidGenerator.Spec.Strings

/-! The threads of `naming-thread-factory.ts` and the workers of a pool of `executors.ts`:
under which of them each task runs. What the tasks of the padding executor do is in its
own module. -/

namespace UID

structure Thread where
  name : String
  daemon : Bool
  deriving DecidableEq, Repr

/-- Each prefix of a name has a counter of its own. -/
structure NamingThreadFactory where
  name : Option String := none
  daemon : Bool := false
  sequences : OrderedMap String ℤ := .empty

namespace NamingThreadFactory

def getSequence (f : NamingThreadFactory) (invoker : String) : ℤ × NamingThreadFactory :=
  let r := toLong ((f.sequences.get invoker).getD 0 + 1)
  (r, { f with sequences := f.sequences.set invoker r })

/-- Without a name the class of the invoker is used, as `getInvoker` reads it off the stack. -/
def threadPrefix (f : NamingThreadFactory) (invoker : String) : String :=
  if isBlank f.name then invoker else f.name.getD ""

def newThread (f : NamingThreadFactory) (invoker : String) : Thread × NamingThreadFactory :=
  let threadPrefix := f.threadPrefix invoker
  let sequence := (f.getSequence threadPrefix).1
  ({ name := threadPrefix ++ "-" ++ toString sequence, daemon := f.daemon },
    (f.getSequence threadPrefix).2)

def setName (f : NamingThreadFactory) (name : Option String) : NamingThreadFactory :=
  { f with name }

def setDaemon (f : NamingThreadFactory) (daemon : Bool) : NamingThreadFactory := { f with daemon }

end NamingThreadFactory

structure ExecutorService where
  poolSize : ℕ
  workers : List Thread := []
  nextWorker : ℕ := 0
  shutdown : Bool := false

namespace ExecutorService

/-- A pool without workers runs its tasks under none. -/
def nextThread (e : ExecutorService) (f : NamingThreadFactory) (invoker : String) :
    Option Thread × ExecutorService × NamingThreadFactory :=
  if e.workers.length < e.poolSize then
    let worker := (f.newThread invoker).1
    (some worker, { e with workers := e.workers ++ [worker] }, (f.newThread invoker).2)
  else
    (e.workers[e.nextWorker % e.poolSize]?,
      { e with nextWorker := (e.nextWorker + 1) % e.poolSize }, f)

/-- The worker that the task runs under. -/
def submit (e : ExecutorService) (f : NamingThreadFactory) (invoker : String) :
    Except Throwable (Option Thread) × ExecutorService × NamingThreadFactory :=
  if e.shutdown then (.error taskRejected, e, f)
  else
    let next := e.nextThread f invoker
    (.ok next.1, next.2)

def shutdownNow (e : ExecutorService) : ExecutorService := { e with shutdown := true }

end ExecutorService

structure Pools where
  factory : NamingThreadFactory
  pools : ℕ → ExecutorService

def Pools.new (factory : NamingThreadFactory) (poolSize : ℕ → ℕ) : Pools where
  factory
  pools pool := { poolSize := poolSize pool }

def Pools.setPool (s : Pools) (pool : ℕ) (e : ExecutorService) : Pools :=
  { s with pools := Function.update s.pools pool e }

inductive PoolEvent
  | submit (pool : ℕ) (invoker : String) (worker : Except Throwable (Option Thread))
  | shutdownNow (pool : ℕ)
  /-- Another user of the factory, such as the schedule, makes a thread. -/
  | newThread (invoker : String) (thread : Thread)
  | setName (name : Option String)
  | setDaemon (daemon : Bool)

inductive PoolStep : Pools → PoolEvent → Pools → Prop
  | submit {s : Pools} {pool : ℕ} {invoker : String} {worker : Except Throwable (Option Thread)}
      {e : ExecutorService} {f : NamingThreadFactory}
      (h : (s.pools pool).submit s.factory invoker = (worker, e, f)) :
      PoolStep s (.submit pool invoker worker) ({ s with factory := f }.setPool pool e)
  | shutdownNow {s : Pools} {pool : ℕ} :
      PoolStep s (.shutdownNow pool) (s.setPool pool (s.pools pool).shutdownNow)
  | newThread {s : Pools} {invoker : String} {thread : Thread} {f : NamingThreadFactory}
      (h : s.factory.newThread invoker = (thread, f)) :
      PoolStep s (.newThread invoker thread) { s with factory := f }
  | setName {s : Pools} {name : Option String} :
      PoolStep s (.setName name) { s with factory := s.factory.setName name }
  | setDaemon {s : Pools} {daemon : Bool} :
      PoolStep s (.setDaemon daemon) { s with factory := s.factory.setDaemon daemon }

def PoolEvent.workerOf (pool : ℕ) : PoolEvent → Option Thread
  | submit p _ (.ok worker) => if p = pool then worker else none
  | _ => none

def workersOf (pool : ℕ) (events : List PoolEvent) : List Thread :=
  events.filterMap (·.workerOf pool)

def PoolEvent.thread : PoolEvent → Option Thread
  | newThread _ thread => some thread
  | _ => none

def otherThreads (events : List PoolEvent) : List Thread := events.filterMap (·.thread)

end UID
