import UidGenerator.Spec.SqliteSqlSession

/-! The turns of the calls of a `SqliteSqlSession`. The first turn of `addWorkerNode` opens
its transaction and inserts, the second one ends it, so that no other call has a part in
it: another `BEGIN` is refused while it is open. -/

namespace UID

open EventLoop

variable {fallback : JsString → Date} {d d' : SqliteDatabase} {call : ℕ} {entity : WorkerNodeEntity}
  {row : SqliteRow} {rest : SqliteTask DaoResult} {e : Throwable} {id : ℤ}

namespace DaoCall

def resolving (entity : WorkerNodeEntity) (id : ℤ) : SqliteTask DaoResult :=
  .yield (.done (.added (.ok ()) (entity.setId id)))

def rejecting (entity : WorkerNodeEntity) (e : Throwable) : SqliteTask DaoResult :=
  .yield (.done (.added (.error e) entity))

def rollingBack (entity : WorkerNodeEntity) (e : Throwable) : SqliteTask DaoResult :=
  .exec (.exec .ROLLBACK) fun
    | .threw e => rejecting entity e
    | _ => rejecting entity e

def committing (entity : WorkerNodeEntity) (id : ℤ) : SqliteTask DaoResult :=
  .exec (.exec .COMMIT) fun
    | .threw e => rollingBack entity e
    | _ => resolving entity id

def inserting (entity : WorkerNodeEntity) : Except Throwable (List SqlValue) → SqliteTask DaoResult
  | .error e => rollingBack entity e
  | .ok values => .exec (.run (addWorkerNodeSql SQLITE_DIALECT) values) fun
    | .threw e => rollingBack entity e
    | .inserted id => .yield (committing entity id)
    | _ => .yield (committing entity 0)

def addWorkerNodeOf (values : Except Throwable (List SqlValue)) : SqlitePromise Unit := do
  let generatedKey ← SqlitePromise.await <| SqliteSqlSession.transaction do
    let values ← values
    match ← SqlitePromise.send (.run (addWorkerNodeSql SQLITE_DIALECT) values) with
    | .inserted lastInsertRowid => return lastInsertRowid
    | _ => return 0
  modify fun workerNodeEntity => workerNodeEntity.setId generatedKey

/-- A command whose reply is only read for what it throws. -/
theorem exec_eq {command : SqliteCommand} {next : SqliteReply → SqliteTask DaoResult}
    {thrown : Throwable → SqliteTask DaoResult} {rest : SqliteTask DaoResult}
    (hthrew : ∀ e, next (.threw e) = thrown e) (hdone : next .done = rest)
    (hinserted : ∀ id, next (.inserted id) = next .done) (hrow : ∀ row, next (.row row) = next .done) :
    Task.exec command next = .exec command fun
      | .threw e => thrown e
      | _ => rest := by
  refine congrArg (Task.exec command) (funext fun reply => ?_)
  cases reply with
  | threw e => exact hthrew e
  | done => exact hdone
  | inserted id => exact (hinserted id).trans hdone
  | row row => exact (hrow row).trans hdone

/-- `addWorkerNode`, up to its last `await`. -/
theorem task_addWorkerNode (entity : WorkerNodeEntity) :
    task fallback (.addWorkerNode entity) = .exec (.exec .BEGIN) fun
      | .threw e => rejecting entity e
      | _ => inserting entity ((entity.parameters entity.launchDate).mapM bind) := by
  have hvalues : task fallback (.addWorkerNode entity) = EventLoop.Task.bind
      ((addWorkerNodeOf ((entity.parameters entity.launchDate).mapM bind)).run.run entity)
      fun settled => .done (.added settled.1 settled.2) := by
    refine congrArg (Task.exec _) (funext fun reply => ?_)
    cases reply <;> rfl
  rw [hvalues]
  generalize (entity.parameters entity.launchDate).mapM bind = values
  have hrollback (e : Throwable) {next : SqliteReply → SqliteTask DaoResult}
      (hthrew : ∀ e, next (.threw e) = rejecting entity e) (hdone : next .done = rejecting entity e)
      (hinserted : ∀ id, next (.inserted id) = next .done)
      (hrow : ∀ row, next (.row row) = next .done) :
      Task.exec (.exec .ROLLBACK) next = rollingBack entity e :=
    exec_eq hthrew hdone hinserted hrow
  refine exec_eq (fun _ => rfl) ?_ (fun _ => rfl) fun _ => rfl
  cases values with
  | error e => exact hrollback e (fun _ => rfl) rfl (fun _ => rfl) fun _ => rfl
  | ok values =>
    have hcommit (id : ℤ) {next : SqliteReply → SqliteTask DaoResult}
        (hthrew : ∀ e, next (.threw e) = rollingBack entity e) (hdone : next .done = resolving entity id)
        (hinserted : ∀ id, next (.inserted id) = next .done)
        (hrow : ∀ row, next (.row row) = next .done) :
        Task.yield (Task.exec (.exec .COMMIT) next) = .yield (committing entity id) :=
      congrArg Task.yield (exec_eq hthrew hdone hinserted hrow)
    refine congrArg (Task.exec _) (funext fun reply => ?_)
    cases reply with
    | threw e => exact hrollback e (fun _ => rfl) rfl (fun _ => rfl) fun _ => rfl
    | _ =>
      exact hcommit _ (fun e => hrollback e (fun _ => rfl) rfl (fun _ => rfl) fun _ => rfl) rfl
        (fun _ => rfl) fun _ => rfl

def reading (fallback : JsString → Date) (row : Option SqliteRow) : SqliteTask DaoResult :=
  .yield (.done (.found (.ok (row.map (mapWorkerNode fallback)))))

theorem task_getWorkerNodeByHostPort (host port : String) :
    task fallback (.getWorkerNodeByHostPort host port) =
      .exec (.get (getWorkerNodeByHostPortSql SQLITE_DIALECT) [.string host, .string port]) fun
        | .threw e => .done (.found (.error e))
        | .row row => reading fallback row
        | _ => reading fallback none := by
  refine congrArg (Task.exec _) (funext fun reply => ?_)
  cases reply <;> rfl

end DaoCall

/-- The row that an insert for the entity adds, but for its key and what the database
writes itself. -/
structure Describes (entity : WorkerNodeEntity) (row : SqliteRow) : Prop where
  hostName : entity.hostName = some row.hostName
  port : entity.port = some row.port
  type : entity.type = row.type
  launchDate : ∃ time day, entity.launchDate = some time ∧
    formatPattern (Date.timeClip time) DAY_PATTERN = .ok day ∧ text day = row.launchDate

/-- All members of the list are mapped. -/
theorem forall₂_of_mapM {ε α β : Type} {f : α → Except ε β} {xs : List α} {ys : List β}
    (h : xs.mapM f = .ok ys) : List.Forall₂ (fun x y => f x = .ok y) xs ys := by
  induction xs generalizing ys with
  | nil =>
    obtain rfl : [] = ys := Except.ok.inj h
    exact .nil
  | cons x xs ih =>
    rw [List.mapM_cons] at h
    cases hx : f x with
    | error e =>
      rw [hx] at h
      cases h
    | ok y =>
      cases hxs : xs.mapM f with
      | error e =>
        rw [hx, hxs] at h
        cases h
      | ok rest =>
        rw [hx, hxs] at h
        obtain rfl : y :: rest = ys := Except.ok.inj h
        exact .cons hx (ih hxs)

theorem bind_string {value : Option String} {result : String}
    (h : bind (value.elim .null .string) = .ok (.string result)) : value = some result := by
  cases value with
  | none => cases h
  | some value => exact congrArg some (SqlValue.string.inj (Except.ok.inj h))

theorem bind_date {launchDate : Option ℤ} {result : String}
    (h : bind (launchDate.elim .null .date) = .ok (.string result)) :
    ∃ time day, launchDate = some time ∧
      formatPattern (Date.timeClip time) DAY_PATTERN = .ok day ∧ text day = result := by
  cases launchDate with
  | none => cases h
  | some time =>
    cases hday : formatPattern (Date.timeClip time) DAY_PATTERN with
    | error e =>
      simp only [Option.elim_some, bind, hday] at h
      cases h
    | ok day =>
      simp only [Option.elim_some, bind, hday] at h
      exact ⟨time, day, rfl, hday, SqlValue.string.inj (Except.ok.inj h)⟩

/-- A statement is only bound to these values for an entity that has them all. -/
theorem describes_of_bound {id type : ℤ} {hostName port launchDate now : String} {caller : Option ℕ}
    (h : (entity.parameters entity.launchDate).mapM bind =
      .ok [.string hostName, .string port, .number type, .string launchDate]) :
    Describes entity ⟨id, hostName, port, type, launchDate, now, now, caller⟩ := by
  cases forall₂_of_mapM h with
  | cons hhost hrest =>
    cases hrest with
    | cons hport hrest =>
      cases hrest with
      | cons htype hrest =>
        cases hrest with
        | cons hdate _ =>
          exact ⟨bind_string hhost, bind_string hport, SqlValue.number.inj (Except.ok.inj htype),
            bind_date hdate⟩

namespace SqliteDatabase

theorem rollback_of_closed (h : d.transaction = none) : d.rollback = d := by
  obtain ⟨committed, transaction, hnodup⟩ := d
  obtain rfl : transaction = none := h
  rfl

theorem rollback_begin (h : d.transaction = none) : d.begin.rollback = d :=
  rollback_of_closed h

end SqliteDatabase

section
open DaoCall

theorem turn_rollingBack (h : Turn (SqliteExecutes call) d (rollingBack entity e) d' rest) :
    d' = d.rollback ∧ ∃ e, rest = rejecting entity e := by
  obtain ⟨reply, d₁, hexecutes, hturn⟩ := turn_exec.1 h
  cases hexecutes with
  | rollback isOpen =>
    obtain ⟨rfl, rfl⟩ := turn_yield.1 hturn
    exact ⟨rfl, e, rfl⟩
  | failed hclosed =>
    obtain ⟨rfl, rfl⟩ := turn_yield.1 hturn
    exact ⟨(SqliteDatabase.rollback_of_closed (hclosed rfl)).symm, _, rfl⟩
  | aborted hcommand =>
    rcases hcommand with hcommand | ⟨sql, parameters, hcommand⟩ <;> cases hcommand

theorem turn_committing (h : Turn (SqliteExecutes call) d (committing entity id) d' rest) :
    d' = d.commit ∧ rest = resolving entity id ∨
      d' = d.rollback ∧ ∃ e, rest = rejecting entity e := by
  obtain ⟨reply, d₁, hexecutes, hturn⟩ := turn_exec.1 h
  cases hexecutes with
  | commit isOpen =>
    obtain ⟨rfl, rfl⟩ := turn_yield.1 hturn
    exact Or.inl ⟨rfl, rfl⟩
  | failed _ => exact Or.inr (turn_rollingBack hturn)
  | aborted _ =>
    obtain ⟨rfl, hrest⟩ := turn_rollingBack hturn
    exact Or.inr ⟨rfl, hrest⟩

/-- The first turn refuses the call and leaves the database alone, or opens a transaction
with its row. -/
theorem turn_addWorkerNode
    (h : Turn (SqliteExecutes call) d (task fallback (.addWorkerNode entity)) d' rest) :
    (d' = d ∧ ∃ e, rest = rejecting entity e) ∨
      ∃ (row : SqliteRow) (fresh : ∀ old ∈ d.begin.rows, old.id ≠ row.id), d.transaction = none ∧
        row.call = some call ∧ Describes entity row ∧ d' = d.begin.insert row fresh ∧
          rest = .yield (committing entity row.id) := by
  rw [task_addWorkerNode] at h
  obtain ⟨reply, d₁, hbegin, hturn⟩ := turn_exec.1 h
  cases hbegin with
  | failed _ =>
    obtain ⟨rfl, rfl⟩ := turn_yield.1 hturn
    exact Or.inl ⟨rfl, _, rfl⟩
  | aborted hcommand =>
    rcases hcommand with hcommand | ⟨sql, parameters, hcommand⟩ <;> cases hcommand
  | begin closed =>
    have hrefused {e : Throwable} {d₂ : SqliteDatabase} (hd₂ : d₂.rollback = d)
        (hturn : Turn (SqliteExecutes call) d₂ (rollingBack entity e) d' rest) :
        d' = d ∧ ∃ e, rest = rejecting entity e := by
      obtain ⟨rfl, hrest⟩ := turn_rollingBack hturn
      exact ⟨hd₂, hrest⟩
    have hrollback := SqliteDatabase.rollback_begin closed
    generalize hvalues : (entity.parameters entity.launchDate).mapM bind = values at hturn
    cases values with
    | error e => exact Or.inl (hrefused hrollback hturn)
    | ok values =>
      obtain ⟨reply, d₂, hinsert, hturn⟩ := turn_exec.1 hturn
      cases hinsert with
      | failed _ => exact Or.inl (hrefused hrollback hturn)
      | aborted _ =>
        rw [hrollback] at hturn
        exact Or.inl (hrefused (SqliteDatabase.rollback_of_closed closed) hturn)
      | inserted fresh _ =>
        obtain ⟨rfl, rfl⟩ := turn_yield.1 hturn
        exact Or.inr ⟨_, fresh, closed, rfl, describes_of_bound hvalues, rfl, rfl⟩

/-- A lookup finds a row of the table with this host and port, if there is one. -/
theorem turn_getWorkerNodeByHostPort {host port : String}
    (h : Turn (SqliteExecutes call) d (task fallback (.getWorkerNodeByHostPort host port)) d' rest) :
    d' = d ∧ ((∃ e, rest = .done (.found (.error e))) ∨
      (∃ row ∈ d.rows, row.hostName = host ∧ row.port = port ∧ rest = reading fallback (some row)) ∨
        (∀ row ∈ d.rows, ¬(row.hostName = host ∧ row.port = port)) ∧ rest = reading fallback none) := by
  rw [task_getWorkerNodeByHostPort] at h
  obtain ⟨reply, d₁, hget, hturn⟩ := turn_exec.1 h
  cases hget with
  | selected hrow =>
    obtain ⟨rfl, rfl⟩ := turn_yield.1 hturn
    exact ⟨rfl, Or.inr (Or.inl ⟨_, hrow, rfl, rfl, rfl⟩)⟩
  | notFound hrows =>
    obtain ⟨rfl, rfl⟩ := turn_yield.1 hturn
    exact ⟨rfl, Or.inr (Or.inr ⟨hrows, rfl⟩)⟩
  | failed _ =>
    obtain ⟨rfl, rfl⟩ := turn_done.1 hturn
    exact ⟨rfl, Or.inl ⟨_, rfl⟩⟩
  | aborted hcommand =>
    rcases hcommand with hcommand | ⟨sql, parameters, hcommand⟩ <;> cases hcommand

end

end UID
