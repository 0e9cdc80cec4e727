import UidGenerator.Spec.DefaultUidGenerator

/-! The asynchronous initialization of a `DefaultUidGenerator`. `afterPropertiesSet`
builds the allocator and gives way until `assignWorkerId` answers; calls of
`getUID` may fall anywhere in between. -/

namespace UID

open DefaultUidGenerator

/-- A generator, and whether an `afterPropertiesSet` waits for its worker id. -/
structure Lifecycle where
  generator : DefaultUidGenerator
  awaitsWorkerId : Bool := false

inductive LifecycleEvent
  /-- `afterPropertiesSet` runs up to its `await`. -/
  | build (outcome : Except Throwable Unit)
  /-- `assignWorkerId` answers and `afterPropertiesSet` runs to its end. -/
  | answer (assigned : Except Throwable ℤ) (outcome : Except Throwable Unit)
  | getUID (call : Call)

inductive LifecycleStep : Lifecycle → LifecycleEvent → Lifecycle → Prop
  | build {g g' : DefaultUidGenerator} {outcome : Except Throwable Unit}
      (h : g.buildAllocator = (outcome, g')) :
      LifecycleStep ⟨g, false⟩ (.build outcome) ⟨g', outcome.isOk⟩
  | answer {g g' : DefaultUidGenerator} {assigned : Except Throwable ℤ}
      {outcome : Except Throwable Unit} (h : g.storeWorkerId assigned = (outcome, g')) :
      LifecycleStep ⟨g, true⟩ (.answer assigned outcome) ⟨g', false⟩
  | getUID {g g' : DefaultUidGenerator} {awaits : Bool} {c : Call} (h : CallStep g c g') :
      LifecycleStep ⟨g, awaits⟩ (.getUID c) ⟨g', awaits⟩

/-- Initializations one after another, interleaved with calls of `getUID`. -/
abbrev Lifecycles (settings : Settings) : List LifecycleEvent → Lifecycle → Prop :=
  Transition.Run LifecycleStep { generator := configured settings }

namespace LifecycleEvent

def settles : LifecycleEvent → Option (Except Throwable Unit)
  | build (.ok ()) => none
  | build (.error e) => some (.error e)
  | answer _ outcome => some outcome
  | getUID _ => none

def accepts : LifecycleEvent → Option ℤ
  | answer (.ok workerId) (.ok ()) => some workerId
  | _ => none

end LifecycleEvent

def Resolved (events : List LifecycleEvent) : Prop :=
  (events.filterMap (·.settles)).getLast? = some (.ok ())

def accepted (events : List LifecycleEvent) : List ℤ := events.filterMap (·.accepts)

end UID
