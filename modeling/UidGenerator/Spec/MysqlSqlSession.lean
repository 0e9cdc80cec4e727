import UidGenerator.Spec.Basic
import UidGenerator.Lib.Async

/-! `mysql-sql-session.ts` and `addWorkerNode` of `sql-worker-node-dao.ts`, for any number
of calls on one connection. A call gives way at every `await`; what the connection
executes in between is given by the assumptions on the server. -/

namespace UID

/-- A parameter of a statement. A date is given by its time in milliseconds. -/
inductive SqlValue
  | null
  | string (value : String)
  | number (value : ℤ)
  | date (time : ℤ)
  deriving DecidableEq, Repr

structure Dialect where
  now : String
  placeholder : ℕ → String

def MYSQL_DIALECT : Dialect where
  now := "NOW()"
  placeholder _ := "?"

def addWorkerNodeSql (dialect : Dialect) : String :=
  "INSERT INTO WORKER_NODE\n" ++
    "(HOST_NAME,\n" ++
    "PORT,\n" ++
    "TYPE,\n" ++
    "LAUNCH_DATE,\n" ++
    "MODIFIED,\n" ++
    "CREATED)\n" ++
    "VALUES (\n" ++
    dialect.placeholder 1 ++ ",\n" ++
    dialect.placeholder 2 ++ ",\n" ++
    dialect.placeholder 3 ++ ",\n" ++
    dialect.placeholder 4 ++ ",\n" ++
    dialect.now ++ ",\n" ++
    dialect.now ++ ")"

/-- The fields that `addWorkerNode` reads or writes. -/
structure WorkerNodeEntity where
  id : ℤ := 0
  hostName : Option String := none
  port : Option String := none
  type : ℤ := 0
  launchDate : Option ℤ := none
  deriving DecidableEq, Repr

namespace WorkerNodeEntity

def setId (entity : WorkerNodeEntity) (id : ℤ) : WorkerNodeEntity := { entity with id }

def parameters (entity : WorkerNodeEntity) (launchDate : Option ℤ) : List SqlValue :=
  [entity.hostName.elim .null .string, entity.port.elim .null .string, .number entity.type,
    launchDate.elim .null .date]

end WorkerNodeEntity

inductive Command
  | beginTransaction
  | query (sql : String) (values : List SqlValue)
  | commit
  | rollback
  deriving DecidableEq, Repr

/-- What a driver's promise comes to; the result of a statement may have an `insertId`. -/
abbrev CommandOutcome := Except Throwable (Option ℤ)

/-- An asynchronous function that works on an entity. What it has changed stays when it throws. -/
abbrev Promise := ExceptT Throwable (StateT WorkerNodeEntity (Async.Program Command CommandOutcome))

def await (command : Command) : Promise (Option ℤ) := do
  let outcome ← (Async.Program.send command : Async.Program Command CommandOutcome CommandOutcome)
  match outcome with
  | .ok insertId => return insertId
  | .error e => throw e

namespace MysqlSqlSession

def insert (sql : String) (parameters : List SqlValue) : Promise ℤ := do
  let insertId ← await (.query sql parameters)
  return insertId.getD 0

def transaction {α : Type} (work : Promise α) : Promise α := do
  let _ ← await .beginTransaction
  try
    let result ← work
    let _ ← await .commit
    return result
  catch error =>
    let _ ← await .rollback
    throw error

end MysqlSqlSession

def addWorkerNode : Promise Unit := do
  let launchDate := (← get).launchDate
  let generatedKey ← MysqlSqlSession.transaction do
    let workerNodeEntity ← get
    MysqlSqlSession.insert (addWorkerNodeSql MYSQL_DIALECT) (workerNodeEntity.parameters launchDate)
  modify fun workerNodeEntity => workerNodeEntity.setId generatedKey

/-- A row of `WORKER_NODE`, with the call whose statement added it, if it was one of them. -/
structure WorkerNodeRow where
  id : ℤ
  values : List SqlValue
  call : Option ℕ
  deriving DecidableEq, Repr

structure Database where
  committed : List WorkerNodeRow := []
  /-- The rows inserted since the transaction was started that is open, if one is. -/
  transaction : Option (List WorkerNodeRow) := none

namespace Database

def uncommitted (d : Database) : List WorkerNodeRow := d.transaction.getD []

def rows (d : Database) : List WorkerNodeRow := d.committed ++ d.uncommitted

/-- Without an open transaction a row is committed at once. -/
def insert (d : Database) (row : WorkerNodeRow) : Database :=
  match d.transaction with
  | none => { d with committed := d.committed ++ [row] }
  | some rows => { d with transaction := some (rows ++ [row]) }

end Database

/-- What the connection is assumed to do with a command of a call. -/
inductive Executes (d : Database) (call : ℕ) : Command → CommandOutcome → Database → Prop
  /-- Starting a transaction commits one already open. -/
  | beginTransaction : Executes d call .beginTransaction (.ok none) ⟨d.rows, some []⟩
  | commit : Executes d call .commit (.ok none) ⟨d.rows, none⟩
  /-- Every insert made since the transaction was started is undone. -/
  | rollback : Executes d call .rollback (.ok none) ⟨d.committed, none⟩
  | inserted {sql : String} {values : List SqlValue} {id : ℤ} (fresh : ∀ row ∈ d.rows, row.id ≠ id) :
      Executes d call (.query sql values) (.ok (some id)) (d.insert ⟨id, values, some call⟩)
  | failed {sql : String} {values : List SqlValue} {e : Throwable} :
      Executes d call (.query sql values) (.error e) d

/-- A server that does what is assumed of it, whatever else there is in its states. -/
structure MysqlServer where
  State : Type
  database : State → Database
  execute : State → ℕ → Command → CommandOutcome → State → Prop
  executes : ∀ {s s' : State} {call : ℕ} {command : Command} {reply : CommandOutcome},
    execute s call command reply s' → Executes (database s) call command reply (database s')

/-- The rest of a call: its outcome, with what has become of its entity. -/
abbrev Continuation :=
  Async.Program Command CommandOutcome (Except Throwable Unit × WorkerNodeEntity)

abbrev continuations : Async.Machine Command CommandOutcome Continuation :=
  Async.Program.machine Command CommandOutcome (Except Throwable Unit × WorkerNodeEntity)

abbrev Session (S : MysqlServer) := Async.System S.State Command CommandOutcome Continuation

abbrev SessionEvent := Async.Event WorkerNodeEntity Command CommandOutcome

abbrev SessionStep (S : MysqlServer) : Session S → SessionEvent → Session S → Prop :=
  Async.Step continuations (fun entity => addWorkerNode.run.run entity) S.execute

variable {S : MysqlServer}

/-- A session before its first call, on a connection without an open transaction. -/
def IsIdle (s : Session S) : Prop :=
  s.queue = [] ∧ (∀ call, s.processes call = none) ∧ (S.database s.server).transaction = none ∧
    ∀ row ∈ (S.database s.server).committed, row.call = none

def AllSettled (s : Session S) : Prop :=
  ∀ call continuation reply, s.processes call = some (continuation, reply) →
    ∃ result, continuation = .done result

def SettledAs (s : Session S) (call : ℕ) (outcome : Except Throwable Unit)
    (entity : WorkerNodeEntity) : Prop :=
  s.processes call = some (.done (outcome, entity), none)

end UID
