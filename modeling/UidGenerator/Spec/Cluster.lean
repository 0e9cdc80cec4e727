import UidGenerator.Spec.CachedUidGenerator
import UidGenerator.Spec.DockerUtils

/-! Generators in many processes that get their worker ids from one `WORKER_NODE` table:
`assignWorkerId` of `disposable-worker-id-assigner.ts` inside `afterPropertiesSet` of both
generators. Every node has its own connection. What the database does with the commands
of a connection, and what it loses when a command fails, is given by the assumptions on
the table. -/

namespace UID

def assignWorkerId : Promise ℤ := do
  -- add worker node for new (ignore the same IP + PORT)
  addWorkerNode
  let workerNodeEntity ← get
  return workerNodeEntity.id

/-- A row of the table, with the node that inserted it, if it was one of these. -/
structure SharedRow where
  id : ℤ
  values : List SqlValue
  node : Option ℕ
  committed : Bool
  deriving DecidableEq, Repr

def SharedRow.isOpen (node : ℕ) (row : SharedRow) : Bool :=
  decide (row.node = some node) && !row.committed

/-- `WORKER_NODE`, with the rows of all open transactions: `ID` is its primary key, and is
generated by `AUTO_INCREMENT`. -/
structure WorkerNodeTable where
  rows : List SharedRow := []
  inTransaction : ℕ → Bool := fun _ => false
  keys_nodup : (rows.map SharedRow.id).Nodup := by simp
  keys_pos : ∀ row ∈ rows, 0 < row.id := by simp

namespace WorkerNodeTable

/-- The key is positive, a safe integer, and not that of another row, committed or not. -/
structure Generates (table : WorkerNodeTable) (id : ℤ) : Prop where
  pos : 0 < id
  safe : id < 2 ^ 53
  fresh : ∀ row ∈ table.rows, row.id ≠ id

def insertRow (table : WorkerNodeTable) (row : SharedRow) (h : table.Generates row.id) :
    WorkerNodeTable where
  rows := table.rows ++ [row]
  inTransaction := table.inTransaction
  keys_nodup := by
    rw [List.map_append, List.map_singleton, List.nodup_append]
    refine ⟨table.keys_nodup, List.nodup_singleton _, fun id hid _ hrow => ?_⟩
    obtain ⟨old, hold, rfl⟩ := List.mem_map.1 hid
    rw [List.mem_singleton.1 hrow]
    exact h.fresh old hold
  keys_pos := by
    intro r hr
    rcases List.mem_append.1 hr with hr | hr
    · exact table.keys_pos r hr
    · rw [List.mem_singleton.1 hr]
      exact h.pos

/-- Without an open transaction a row is committed at once. -/
def insert (table : WorkerNodeTable) (node : ℕ) (values : List SqlValue) (id : ℤ)
    (h : table.Generates id) : WorkerNodeTable :=
  table.insertRow
    { id, values, node := some node, committed := !table.inTransaction node } h

def commit (table : WorkerNodeTable) (node : ℕ) : WorkerNodeTable where
  rows := table.rows.map fun row => { row with committed := row.committed || row.isOpen node }
  inTransaction := Function.update table.inTransaction node false
  keys_nodup := by
    rw [List.map_map]
    exact table.keys_nodup
  keys_pos := by
    intro row hrow
    obtain ⟨old, hold, rfl⟩ := List.mem_map.1 hrow
    exact table.keys_pos old hold

def rollback (table : WorkerNodeTable) (node : ℕ) : WorkerNodeTable where
  rows := table.rows.filter fun row => !row.isOpen node
  inTransaction := Function.update table.inTransaction node false
  keys_nodup := table.keys_nodup.sublist ((List.filter_sublist).map _)
  keys_pos row hrow := table.keys_pos row (List.mem_of_mem_filter hrow)

/-- Starting a transaction commits one already open. -/
def beginTransaction (table : WorkerNodeTable) (node : ℕ) : WorkerNodeTable :=
  { table.commit node with inTransaction := Function.update table.inTransaction node true }

@[simp] theorem commit_keys (table : WorkerNodeTable) (node : ℕ) :
    (table.commit node).rows.map SharedRow.id = table.rows.map SharedRow.id :=
  List.map_map

@[simp] theorem beginTransaction_keys (table : WorkerNodeTable) (node : ℕ) :
    (table.beginTransaction node).rows.map SharedRow.id = table.rows.map SharedRow.id :=
  List.map_map

@[simp] theorem insert_keys (table : WorkerNodeTable) (node : ℕ) (values : List SqlValue) (id : ℤ)
    (h : table.Generates id) :
    (table.insert node values id h).rows.map SharedRow.id = table.rows.map SharedRow.id ++ [id] :=
  List.map_append

theorem generates_iff (table : WorkerNodeTable) (id : ℤ) :
    table.Generates id ↔ 0 < id ∧ id < 2 ^ 53 ∧ id ∉ table.rows.map SharedRow.id := by
  constructor
  · rintro ⟨hpos, hsafe, hfresh⟩
    refine ⟨hpos, hsafe, fun hmem => ?_⟩
    obtain ⟨row, hrow, heq⟩ := List.mem_map.1 hmem
    exact hfresh row hrow heq
  · rintro ⟨hpos, hsafe, hmem⟩
    exact ⟨hpos, hsafe, fun row hrow heq => hmem (heq ▸ List.mem_map_of_mem hrow)⟩

/-- What the database is assumed to do with a command on the connection of the node. -/
inductive Executes (table : WorkerNodeTable) (node : ℕ) :
    Command → CommandOutcome → WorkerNodeTable → Prop
  | beginTransaction :
      Executes table node .beginTransaction (.ok none) (table.beginTransaction node)
  | commit : Executes table node .commit (.ok none) (table.commit node)
  | rollback : Executes table node .rollback (.ok none) (table.rollback node)
  | inserted {sql : String} {values : List SqlValue} {id : ℤ} (h : table.Generates id) :
      Executes table node (.query sql values) (.ok (some id)) (table.insert node values id h)
  | failed {command : Command} {e : Throwable} : Executes table node command (.error e) table
  /-- With its connection the node loses its transaction. -/
  | lost {command : Command} {e : Throwable} :
      Executes table node command (.error e) (table.rollback node)
  /-- The answer to a COMMIT that was executed does not arrive. -/
  | unanswered {e : Throwable} : Executes table node .commit (.error e) (table.commit node)

def Registers (table : WorkerNodeTable) (row : SharedRow) (table' : WorkerNodeTable) : Prop :=
  row.node = none ∧ ∃ h : table.Generates row.id, table' = table.insertRow row h

end WorkerNodeTable

/-- A database that does what is assumed of it, whatever else there is in its states. -/
structure WorkerNodeServer where
  State : Type
  table : State → WorkerNodeTable
  execute : State → ℕ → Command → CommandOutcome → State → Prop
  register : State → SharedRow → State → Prop
  executes : ∀ {s s' : State} {node : ℕ} {command : Command} {outcome : CommandOutcome},
    execute s node command outcome s' → (table s).Executes node command outcome (table s')
  registers : ∀ {s s' : State} {row : SharedRow},
    register s row s' → (table s).Registers row (table s')

inductive UidGenerator
  | default (g : DefaultUidGenerator)
  | cached (g : CachedUidGenerator)

inductive NodeSettings
  | default (settings : Settings)
  | cached (settings : CachedSettings)

/-- The entity that `buildWorkerNode` makes is given by what it finds on its host. -/
structure Host where
  docker : DockerUtils
  localAddress : String
  launchDate : ℤ
  now : ℤ
  random : ℤ

def Host.buildWorkerNode (host : Host) : WorkerNodeEntity :=
  host.docker.buildWorkerNode host.localAddress host.launchDate host.now host.random

/-- The rest of a call of `assignWorkerId`: its outcome, with what has become of its entity. -/
abbrev Assignment :=
  Async.Program Command CommandOutcome (Except Throwable ℤ × WorkerNodeEntity)

abbrev assignments : Async.Machine Command CommandOutcome Assignment :=
  Async.Program.machine Command CommandOutcome (Except Throwable ℤ × WorkerNodeEntity)

namespace NodeSettings

def toSettings : NodeSettings → Settings
  | default settings => settings
  | cached settings => settings.toSettings

/-- `afterPropertiesSet` of a new generator up to its `await`. -/
def buildAllocator (settings : NodeSettings) : Except Throwable Unit :=
  (DefaultUidGenerator.configured settings.toSettings).buildAllocator.1

/-- `afterPropertiesSet` of a new generator, with the answer of `assignWorkerId` and the
clock reading after it. -/
def afterPropertiesSet (settings : NodeSettings) (assigned : Except Throwable ℤ) (now : ℤ)
    (fuel : ℕ) : Option (Except Throwable Unit × UidGenerator) :=
  match settings with
  | default settings =>
    let (outcome, g) := (DefaultUidGenerator.configured settings).afterPropertiesSet assigned
    some (outcome, .default g)
  | cached settings =>
    ((CachedUidGenerator.configured settings).afterPropertiesSet assigned now fuel).map
      fun (outcome, g) => (outcome, .cached g)

end NodeSettings

/-- A generator is used once its `afterPropertiesSet` has resolved. Calls of `getUID` before
that, or after it has rejected, are left out. -/
inductive Node
  | down
  | starting (settings : NodeSettings) (assignment : Assignment) (reply : Option CommandOutcome)
  | running (generator : UidGenerator)
  | failed

inductive UidGenerator.Event
  | default (call : DefaultUidGenerator.Call)
  | cached (event : CachedUidGenerator.Event)

namespace UidGenerator

inductive Step : UidGenerator → Event → UidGenerator → Prop
  | default {g g' : DefaultUidGenerator} {call : DefaultUidGenerator.Call}
      (h : DefaultUidGenerator.CallStep g call g') : Step (.default g) (.default call) (.default g')
  | cached {g g' : CachedUidGenerator} {event : CachedUidGenerator.Event}
      (h : CachedUidGenerator.Step g event g') : Step (.cached g) (.cached event) (.cached g')

def Event.uid : Event → Option ℤ
  | default call => call.outcome.toOption
  | cached event => event.uid

def workerId : UidGenerator → ℤ
  | default g => g.workerId
  | cached g => g.workerId

end UidGenerator

structure Cluster (S : WorkerNodeServer) where
  server : S.State
  nodes : ℕ → Node := fun _ => .down

variable {S : WorkerNodeServer}

namespace Cluster

def table (c : Cluster S) : WorkerNodeTable := S.table c.server

def setNode (c : Cluster S) (node : ℕ) (state : Node) : Cluster S :=
  { c with nodes := Function.update c.nodes node state }

@[simp] theorem setNode_self (c : Cluster S) (node : ℕ) (state : Node) :
    (c.setNode node state).nodes node = state :=
  Function.update_self _ _ _

theorem setNode_of_ne (c : Cluster S) {node other : ℕ} (h : other ≠ node) (state : Node) :
    (c.setNode node state).nodes other = c.nodes other :=
  Function.update_of_ne h _ _

@[simp] theorem setNode_setNode (c : Cluster S) (node : ℕ) (state state' : Node) :
    (c.setNode node state).setNode node state' = c.setNode node state' := by
  simp only [setNode, Function.update_idem]

/-- The server and the nodes change independently. -/
theorem setNode_server (c : Cluster S) (server server' : S.State) (node : ℕ) (state state' : Node) :
    { { c with server }.setNode node state with server := server' }.setNode node state' =
      { c with server := server' }.setNode node state' := by
  simp only [setNode, Function.update_idem]

end Cluster

inductive ClusterEvent
  /-- `afterPropertiesSet` of the node runs up to its first `await`. -/
  | launch (node : ℕ) (settings : NodeSettings) (host : Host)
  | execute (node : ℕ) (command : Command) (outcome : CommandOutcome)
  /-- `assignWorkerId` of the node goes on with the outcome of its last command. -/
  | resume (node : ℕ)
  /-- `assignWorkerId` has settled, and `afterPropertiesSet` runs to its end. -/
  | settle (node : ℕ) (now : ℤ) (outcome : Except Throwable Unit)
  | generate (node : ℕ) (event : UidGenerator.Event)
  /-- Another client of the table commits a row. -/
  | register (row : SharedRow)

inductive ClusterStep : Cluster S → ClusterEvent → Cluster S → Prop
  | launch {c : Cluster S} {node : ℕ} {settings : NodeSettings} {host : Host}
      (down : c.nodes node = .down) (built : settings.buildAllocator = .ok ()) :
      ClusterStep c (.launch node settings host) (c.setNode node
        (.starting settings (assignWorkerId.run.run host.buildWorkerNode) none))
  | refuse {c : Cluster S} {node : ℕ} {settings : NodeSettings} {host : Host} {e : Throwable}
      (down : c.nodes node = .down) (built : settings.buildAllocator = .error e) :
      ClusterStep c (.launch node settings host) (c.setNode node .failed)
  | execute {c : Cluster S} {node : ℕ} {settings : NodeSettings} {assignment : Assignment}
      {command : Command} {outcome : CommandOutcome} {server : S.State}
      (waiting : c.nodes node = .starting settings assignment none)
      (awaited : assignments.command assignment = some command)
      (h : S.execute c.server node command outcome server) :
      ClusterStep c (.execute node command outcome)
        ({ c with server }.setNode node (.starting settings assignment (some outcome)))
  | resume {c : Cluster S} {node : ℕ} {settings : NodeSettings} {assignment : Assignment}
      {outcome : CommandOutcome}
      (replied : c.nodes node = .starting settings assignment (some outcome)) :
      ClusterStep c (.resume node) (c.setNode node
        (.starting settings (assignments.next assignment outcome) none))
  | resolve {c : Cluster S} {node : ℕ} {settings : NodeSettings} {assigned : Except Throwable ℤ}
      {entity : WorkerNodeEntity} {now : ℤ} {fuel : ℕ} {g : UidGenerator}
      (settled : c.nodes node = .starting settings (.done (assigned, entity)) none)
      (h : settings.afterPropertiesSet assigned now fuel = some (.ok (), g)) :
      ClusterStep c (.settle node now (.ok ())) (c.setNode node (.running g))
  | reject {c : Cluster S} {node : ℕ} {settings : NodeSettings} {assigned : Except Throwable ℤ}
      {entity : WorkerNodeEntity} {now : ℤ} {fuel : ℕ} {g : UidGenerator} {e : Throwable}
      (settled : c.nodes node = .starting settings (.done (assigned, entity)) none)
      (h : settings.afterPropertiesSet assigned now fuel = some (.error e, g)) :
      ClusterStep c (.settle node now (.error e)) (c.setNode node .failed)
  | generate {c : Cluster S} {node : ℕ} {g g' : UidGenerator} {event : UidGenerator.Event}
      (running : c.nodes node = .running g) (h : g.Step event g') :
      ClusterStep c (.generate node event) (c.setNode node (.running g'))
  | register {c : Cluster S} {row : SharedRow} {server : S.State}
      (h : S.register c.server row server) : ClusterStep c (.register row) { c with server }

/-- Runs of any number of nodes, from a table that other clients may have filled. -/
abbrev Clusters (server : S.State) : List ClusterEvent → Cluster S → Prop :=
  Transition.Run ClusterStep { server }

def ClusterEvent.generates (node : ℕ) : ClusterEvent → Option UidGenerator.Event
  | generate n event => if n = node then some event else none
  | _ => none

def ClusterEvent.uid : ClusterEvent → Option (ℕ × ℤ)
  | generate node event => event.uid.map fun uid => (node, uid)
  | _ => none

def uidsOf (node : ℕ) (events : List ClusterEvent) : List ℤ :=
  (events.filterMap (·.generates node)).filterMap (·.uid)

def clusterUids (events : List ClusterEvent) : List ℤ := (events.filterMap (·.uid)).map Prod.snd

def SameWidths (timeBits workerBits seqBits : ℤ) (events : List ClusterEvent) : Prop :=
  ∀ node settings host, .launch node settings host ∈ events →
    settings.toSettings.timeBits = timeBits ∧ settings.toSettings.workerBits = workerBits ∧
      settings.toSettings.seqBits = seqBits

end UID
