import UidGenerator.Lib.EventLoop
import UidGenerator.Spec.JavaDate
import UidGenerator.Spec.MysqlSqlSession

/-! `sqlite-sql-session.ts` with the `SqlWorkerNodeDAO` of `sql-worker-node-dao.ts` on it,
for any number of calls on one database. Its commands are executed at once, so that a call
gives way only at an `await`. -/

namespace UID

open EventLoop

def SQLITE_DIALECT : Dialect where
  now := "CURRENT_TIMESTAMP"
  placeholder _ := "?"

def getWorkerNodeByHostPortSql (dialect : Dialect) : String :=
  "SELECT\n" ++
    "ID,\n" ++
    "HOST_NAME,\n" ++
    "PORT,\n" ++
    "TYPE,\n" ++
    "LAUNCH_DATE,\n" ++
    "MODIFIED,\n" ++
    "CREATED\n" ++
    "FROM\n" ++
    "WORKER_NODE\n" ++
    "WHERE\n" ++
    "HOST_NAME = " ++ dialect.placeholder 1 ++ " AND PORT = " ++ dialect.placeholder 2

/-- What a statement is bound to: of a `Date`, the day. -/
def bind : SqlValue → Except Throwable SqlValue
  | .date time => do
    let day ← formatPattern (Date.timeClip time) DAY_PATTERN
    return .string (text day)
  | value => return value

/-- A row of `WORKER_NODE`, with the call whose statement added it, if it was one of them. -/
structure SqliteRow where
  id : ℤ
  hostName : String
  port : String
  type : ℤ
  launchDate : String
  modified : String
  created : String
  call : Option ℕ
  deriving DecidableEq, Repr

/-- `WorkerNodeEntity` with the fields that only `mapWorkerNode` writes. -/
structure WorkerNode where
  id : ℤ
  hostName : Option String
  port : Option String
  type : ℤ
  launchDate : Option Date
  created : Option Date
  modified : Option Date

/-- The mapper's `workerNodeRes` result map, on a row in which no column is null. -/
def mapWorkerNode (fallback : JsString → Date) (row : SqliteRow) : WorkerNode where
  id := row.id
  hostName := some row.hostName
  port := some row.port
  type := row.type
  launchDate := some (Date.ofText fallback (js row.launchDate))
  modified := some (Date.ofText fallback (js row.modified))
  created := some (Date.ofText fallback (js row.created))

inductive ExecSql
  | BEGIN
  | COMMIT
  | ROLLBACK
  deriving DecidableEq, Repr

/-- The calls of `node:sqlite`; the last two prepare their statement first. -/
inductive SqliteCommand
  | exec (sql : ExecSql)
  | run (sql : String) (parameters : List SqlValue)
  | get (sql : String) (parameters : List SqlValue)
  deriving DecidableEq, Repr

inductive SqliteReply
  | done
  | inserted (lastInsertRowid : ℤ)
  | row (row : Option SqliteRow)
  | threw (e : Throwable)

abbrev SqliteTask := Task SqliteCommand SqliteReply

/-- A function that works on an entity. What it has changed stays when it throws. -/
abbrev SqlitePromise := ExceptT Throwable (StateT WorkerNodeEntity SqliteTask)

namespace SqlitePromise

def send (command : SqliteCommand) : SqlitePromise SqliteReply := do
  let reply ← (Task.send command : SqliteTask SqliteReply)
  match reply with
  | .threw e => throw e
  | reply => return reply

def pause : SqlitePromise Unit := do
  (Task.pause : SqliteTask Unit)

def await {α : Type} (promise : SqlitePromise α) : SqlitePromise α := do
  let result ← try promise catch e => do
    pause
    throw e
  pause
  return result

end SqlitePromise

namespace SqliteSqlSession

def insert (sql : String) (parameters : List SqlValue) : SqlitePromise ℤ := do
  let values ← (parameters.mapM bind : Except Throwable (List SqlValue))
  match ← SqlitePromise.send (.run sql values) with
  | .inserted lastInsertRowid => return lastInsertRowid
  | _ => return 0

def selectOne (sql : String) (parameters : List SqlValue) : SqlitePromise (Option SqliteRow) := do
  let values ← (parameters.mapM bind : Except Throwable (List SqlValue))
  match ← SqlitePromise.send (.get sql values) with
  | .row row => return row
  | _ => return none

def transaction {α : Type} (work : SqlitePromise α) : SqlitePromise α := do
  let _ ← SqlitePromise.send (.exec .BEGIN)
  try
    -- a statement that throws is not awaited
    let result ← work
    SqlitePromise.pause
    let _ ← SqlitePromise.send (.exec .COMMIT)
    return result
  catch error =>
    let _ ← SqlitePromise.send (.exec .ROLLBACK)
    throw error

def addWorkerNode : SqlitePromise Unit := do
  let launchDate := (← get).launchDate
  let generatedKey ← SqlitePromise.await <| transaction do
    let workerNodeEntity ← get
    insert (addWorkerNodeSql SQLITE_DIALECT) (workerNodeEntity.parameters launchDate)
  modify fun workerNodeEntity => workerNodeEntity.setId generatedKey

def getWorkerNodeByHostPort (fallback : JsString → Date) (host port : String) :
    SqlitePromise (Option WorkerNode) := do
  let row ← selectOne (getWorkerNodeByHostPortSql SQLITE_DIALECT) [.string host, .string port]
  SqlitePromise.pause
  return row.map (mapWorkerNode fallback)

end SqliteSqlSession

structure SqliteDatabase where
  committed : List SqliteRow := []
  /-- The rows inserted since the transaction was started that is open, if one is. -/
  transaction : Option (List SqliteRow) := none
  keys_nodup : ((committed ++ transaction.getD []).map SqliteRow.id).Nodup := by simp

namespace SqliteDatabase

def uncommitted (d : SqliteDatabase) : List SqliteRow := d.transaction.getD []

def rows (d : SqliteDatabase) : List SqliteRow := d.committed ++ d.uncommitted

def begin (d : SqliteDatabase) : SqliteDatabase where
  committed := d.committed
  transaction := some []
  keys_nodup := by
    rw [Option.getD_some, List.append_nil]
    exact d.keys_nodup.sublist ((List.sublist_append_left _ _).map _)

def commit (d : SqliteDatabase) : SqliteDatabase where
  committed := d.rows
  keys_nodup := by
    rw [Option.getD_none, List.append_nil]
    exact d.keys_nodup

/-- Every insert made since the transaction was started is undone. -/
def rollback (d : SqliteDatabase) : SqliteDatabase where
  committed := d.committed
  keys_nodup := by
    rw [Option.getD_none, List.append_nil]
    exact d.keys_nodup.sublist ((List.sublist_append_left _ _).map _)

def insert (d : SqliteDatabase) (row : SqliteRow) (h : ∀ old ∈ d.rows, old.id ≠ row.id) :
    SqliteDatabase :=
  have hnodup : ((d.rows ++ [row]).map SqliteRow.id).Nodup := by
    rw [List.map_append, List.map_singleton, List.nodup_append]
    refine ⟨d.keys_nodup, List.nodup_singleton _, fun id hid _ hrow => ?_⟩
    obtain ⟨old, hold, rfl⟩ := List.mem_map.1 hid
    rw [List.mem_singleton.1 hrow]
    exact h old hold
  match hopen : d.transaction with
  | none =>
    { committed := d.committed ++ [row]
      keys_nodup := by simpa [rows, uncommitted, hopen] using hnodup }
  | some rows =>
    { committed := d.committed
      transaction := some (rows ++ [row])
      keys_nodup := by simpa [SqliteDatabase.rows, uncommitted, hopen] using hnodup }

end SqliteDatabase

/-- What the database is assumed to do with a command of a call. -/
inductive SqliteExecutes (call : ℕ) :
    SqliteDatabase → SqliteCommand → SqliteReply → SqliteDatabase → Prop
  /-- There is no transaction within a transaction. -/
  | begin {d : SqliteDatabase} (closed : d.transaction = none) :
      SqliteExecutes call d (.exec .BEGIN) .done d.begin
  | commit {d : SqliteDatabase} (isOpen : d.transaction ≠ none) :
      SqliteExecutes call d (.exec .COMMIT) .done d.commit
  | rollback {d : SqliteDatabase} (isOpen : d.transaction ≠ none) :
      SqliteExecutes call d (.exec .ROLLBACK) .done d.rollback
  /-- No column of the table takes a null, and a key is a safe integer. -/
  | inserted {d : SqliteDatabase} {id type : ℤ} {hostName port launchDate now : String}
      (fresh : ∀ old ∈ d.rows, old.id ≠ id) (safe : id.natAbs < 2 ^ 53) :
      SqliteExecutes call d
        (.run (addWorkerNodeSql SQLITE_DIALECT)
          [.string hostName, .string port, .number type, .string launchDate])
        (.inserted id)
        (d.insert ⟨id, hostName, port, type, launchDate, now, now, some call⟩ fresh)
  | selected {d : SqliteDatabase} {row : SqliteRow} (h : row ∈ d.rows) :
      SqliteExecutes call d
        (.get (getWorkerNodeByHostPortSql SQLITE_DIALECT) [.string row.hostName, .string row.port])
        (.row (some row)) d
  | notFound {d : SqliteDatabase} {hostName port : String}
      (h : ∀ row ∈ d.rows, ¬(row.hostName = hostName ∧ row.port = port)) :
      SqliteExecutes call d
        (.get (getWorkerNodeByHostPortSql SQLITE_DIALECT) [.string hostName, .string port])
        (.row none) d
  /-- Any command can fail, other than a ROLLBACK of an open transaction. -/
  | failed {d : SqliteDatabase} {command : SqliteCommand} {e : Throwable}
      (h : command = .exec .ROLLBACK → d.transaction = none) :
      SqliteExecutes call d command (.threw e) d
  /-- An INSERT or a COMMIT that fails may undo the transaction. -/
  | aborted {d : SqliteDatabase} {command : SqliteCommand} {e : Throwable}
      (h : command = .exec .COMMIT ∨ ∃ sql parameters, command = .run sql parameters) :
      SqliteExecutes call d command (.threw e) d.rollback

/-- A database that does what is assumed of it, whatever else there is in its states. Every
command is answered. -/
structure SqliteServer where
  State : Type
  database : State → SqliteDatabase
  execute : ℕ → State → SqliteCommand → SqliteReply → State → Prop
  executes : ∀ {call : ℕ} {s s' : State} {command : SqliteCommand} {reply : SqliteReply},
    execute call s command reply s' → SqliteExecutes call (database s) command reply (database s')
  answers : ∀ (call : ℕ) (s : State) (command : SqliteCommand),
    ∃ reply s', execute call s command reply s'

inductive DaoCall
  | addWorkerNode (workerNodeEntity : WorkerNodeEntity)
  | getWorkerNodeByHostPort (host port : String)

inductive DaoResult
  | added (outcome : Except Throwable Unit) (entity : WorkerNodeEntity)
  | found (outcome : Except Throwable (Option WorkerNode))

def DaoCall.task (fallback : JsString → Date) : DaoCall → SqliteTask DaoResult
  | addWorkerNode workerNodeEntity => do
    let (outcome, entity) ← SqliteSqlSession.addWorkerNode.run.run workerNodeEntity
    return .added outcome entity
  | getWorkerNodeByHostPort host port => do
    let (outcome, _) ← (SqliteSqlSession.getWorkerNodeByHostPort fallback host port).run.run {}
    return .found outcome

abbrev SqliteSession (V : SqliteServer) := Loop V.State SqliteCommand SqliteReply DaoResult

abbrev SqliteEvent := EventLoop.Event DaoCall

abbrev SqliteStep (V : SqliteServer) (fallback : JsString → Date) :
    SqliteSession V → SqliteEvent → SqliteSession V → Prop :=
  EventLoop.Step (DaoCall.task fallback) V.execute

def SqliteSession.IsIdle {V : SqliteServer} (s : SqliteSession V) : Prop :=
  (∀ call, s.tasks call = none) ∧ (V.database s.server).transaction = none ∧
    ∀ row ∈ (V.database s.server).committed, row.call = none

/-- The rows in the table that the call has added, or with `none` those that were there
before the first call. -/
def SqliteDatabase.rowsOf (d : SqliteDatabase) (call : Option ℕ) : List SqliteRow :=
  d.rows.filter fun row => row.call = call

end UID
