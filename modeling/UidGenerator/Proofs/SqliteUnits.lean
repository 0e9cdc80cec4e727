import UidGenerator.Proofs.DateText
import UidGenerator.Proofs.SqliteCalls

/-! The calls of a `SqliteSqlSession` as units of work. Unlike those of a `MysqlSqlSession`
they may overlap: the transaction of one call is closed to the others, which are refused
while it is open. -/

namespace UID

open EventLoop Transition DaoCall

variable {fallback : JsString → Date} {call : ℕ} {entity : WorkerNodeEntity} {row : SqliteRow}
  {result : DaoResult} {events : List SqliteEvent}

section
variable {s : TableSession} {id type : ℤ} {hostName port launchDate : String}
  (fallback : JsString → Date) (now : String)

/-- The first turn of a call for an entity with all its values, with any key that is not
taken. -/
theorem exists_opened (hnone : s.tasks call = none) (closed : s.server.transaction = none)
    (fresh : ∀ old ∈ s.server.rows, old.id ≠ id) (safe : id.natAbs < 2 ^ 53)
    (hvalues : (entity.parameters entity.launchDate).mapM bind =
      .ok [.string hostName, .string port, .number type, .string launchDate]) :
    ∃ s', TableStep fallback s (.start call (.addWorkerNode entity)) s' ∧
      s'.tasks call = some (.yield (committing entity id)) ∧
        (∀ other, other ≠ call → s'.tasks other = s.tasks other) ∧
          s'.server.committed = s.server.committed ∧
            s'.server.transaction =
              some [⟨id, hostName, port, type, launchDate, now, now, some call⟩] := by
  have hbegin : s.server.begin.rows = s.server.rows := by
    rw [SqliteDatabase.rows_of_closed closed]
    exact List.append_nil _
  have hfresh : ∀ old ∈ s.server.begin.rows, old.id ≠ id := hbegin ▸ fresh
  let row : SqliteRow := ⟨id, hostName, port, type, launchDate, now, now, some call⟩
  have hempty : s.server.begin.transaction = some [] := rfl
  refine ⟨s.proceed (s.server.begin.insert row hfresh) call (.yield (committing entity id)),
    .start hnone ?_, s.proceed_self _ _ _, fun _ hne => s.proceed_of_ne _ hne _,
    SqliteDatabase.insert_committed hempty, ?_⟩
  · rw [task_addWorkerNode, hvalues]
    exact .exec (.begin closed) (.exec (.inserted hfresh safe) .yield)
  · rw [← List.nil_append [_]]
    exact SqliteDatabase.insert_transaction hempty

/-- A call may be refused, and then settles without a change. -/
theorem exists_refused (entity : WorkerNodeEntity) (fallback : JsString → Date)
    (hnone : s.tasks call = none) (e : Throwable) :
    ∃ s', TableStep fallback s (.start call (.addWorkerNode entity)) s' ∧
      s'.tasks call = some (rejecting entity e) ∧
        (∀ other, other ≠ call → s'.tasks other = s.tasks other) ∧ s'.server = s.server := by
  refine ⟨s.proceed s.server call (rejecting entity e), .start hnone ?_, s.proceed_self _ _ _,
    fun _ hne => s.proceed_of_ne _ hne _, rfl⟩
  rw [task_addWorkerNode]
  exact .exec (.failed fun hcommand => by cases hcommand) .yield

/-- The last turn of a call. -/
theorem exists_done (hyield : s.tasks call = some (.yield (.done result))) :
    ∃ s', TableStep fallback s (.resume call) s' ∧ s'.tasks call = some (.done result) ∧
      (∀ other, other ≠ call → s'.tasks other = s.tasks other) ∧ s'.server = s.server :=
  ⟨s.proceed s.server call (.done result), .resume hyield .done, s.proceed_self _ _ _,
    fun _ hne => s.proceed_of_ne _ hne _, rfl⟩

end

def plainSqlite : SqliteServer where
  State := SqliteDatabase
  database d := d
  execute := SqliteExecutes
  executes h := h
  answers call d command := by
    by_cases hrollback : command = .exec .ROLLBACK ∧ d.transaction ≠ none
    · obtain ⟨rfl, isOpen⟩ := hrollback
      exact ⟨_, _, .rollback isOpen⟩
    · exact ⟨_, _, .failed (e := .error "database is locked") fun hcommand =>
        by_contra fun isOpen => hrollback ⟨hcommand, isOpen⟩⟩

/-- A host that reads the timestamps of the database, as UTC, and no other texts. -/
def readTimestamp (str : JsString) : Date :=
  (parseByDateTimePattern str).toOption.getD (Date.timeClip (8640000000000000 + 1))

def earlierRow : SqliteRow :=
  ⟨7, "10.0.0.9", "80", 2, "2016-05-20", "2016-05-20 00:00:00", "2016-05-20 00:00:00", none⟩

def usedSession : TableSession where
  server := { committed := [earlierRow] }

theorem usedSession_isIdle :
    SqliteSession.IsIdle (V := plainSqlite) usedSession := by
  refine ⟨fun _ => rfl, rfl, fun row hrow => ?_⟩
  rw [List.mem_singleton.1 hrow]
  rfl

def sqliteNode : WorkerNodeEntity where
  hostName := some "10.0.0.1"
  port := some "8080"
  type := 1
  launchDate := some 45296000

def otherSqliteNode : WorkerNodeEntity := { sqliteNode with hostName := some "10.0.0.2" }

def sqliteNodeRow : SqliteRow :=
  ⟨8, "10.0.0.1", "8080", 1, "1970-01-01", "1970-01-01 12:34:56", "1970-01-01 12:34:56", some 0⟩

theorem sqliteNode_bound : (sqliteNode.parameters sqliteNode.launchDate).mapM bind =
    .ok [.string "10.0.0.1", .string "8080", .number 1, .string "1970-01-01"] := by
  decide

/-- A second call meets the open transaction of the first. -/
theorem crossing (fallback : JsString → Date) : ∃ opened refused s : TableSession, ∃ e : Throwable,
    TableStep fallback usedSession (.start 0 (.addWorkerNode sqliteNode)) opened ∧
    opened.server.transaction = some [sqliteNodeRow] ∧
    TableStep fallback opened (.start 1 (.addWorkerNode otherSqliteNode)) refused ∧
    Run (TableStep fallback) refused [.resume 1, .resume 0, .resume 0] s ∧
    s.tasks 0 = some (.done (.added (.ok ()) (sqliteNode.setId 8))) ∧
    s.tasks 1 = some (.done (.added (.error e) otherSqliteNode)) ∧ s.tasks 2 = none ∧
    s.server.rows = [earlierRow, sqliteNodeRow] := by
  have hnone (call : ℕ) : usedSession.tasks call = none := rfl
  have hfresh : ∀ old ∈ usedSession.server.rows, old.id ≠ 8 := by decide
  obtain ⟨opened, hopen, hyield, hothers, hcommitted, htransaction⟩ :=
    exists_opened fallback "1970-01-01 12:34:56" (hnone 0) rfl hfresh (by decide) sqliteNode_bound
  let e := Throwable.error "cannot start a transaction within a transaction"
  have hnone₁ : opened.tasks 1 = none := hothers 1 (by decide)
  obtain ⟨refused, hrefuse, hrefused, hothers₁, hserver₁⟩ :=
    exists_refused otherSqliteNode fallback hnone₁ e
  obtain ⟨rejected, hreject, hresult₁, hothers₂, hserver₂⟩ := exists_done fallback hrefused
  have hyield' : rejected.tasks 0 = some (.yield (committing sqliteNode sqliteNodeRow.id)) := by
    rw [hothers₂ 0 (by decide), hothers₁ 0 (by decide), hyield]
    rfl
  have htransaction' : rejected.server.transaction = some [sqliteNodeRow] := by
    rw [hserver₂, hserver₁, htransaction]
    rfl
  have hcommit : TableStep fallback rejected (.resume 0) _ := exists_commit hyield' htransaction'
  obtain ⟨s, hdone, hresult₀, hothers₃, hserver₃⟩ :=
    exists_done fallback (rejected.proceed_self rejected.server.commit 0
      (resolving sqliteNode sqliteNodeRow.id))
  have hother (call : ℕ) (hne : call ≠ 0) : s.tasks call = rejected.tasks call :=
    (hothers₃ call hne).trans (rejected.proceed_of_ne _ hne _)
  refine ⟨opened, refused, s, e, hopen, htransaction, hrefuse,
    Run.cons hreject (Run.cons hcommit (run_singleton.2 hdone)), hresult₀, ?_, ?_, ?_⟩
  · rw [hother 1 (by decide), hresult₁]
  · rw [hother 2 (by decide), hothers₂ 2 (by decide), hothers₁ 2 (by decide), hothers 2 (by decide)]
    rfl
  · have hrows : rejected.server.commit.rows = rejected.server.rows := SqliteDatabase.rows_commit _
    rw [hserver₃]
    refine hrows.trans ?_
    rw [SqliteDatabase.rows_of_open htransaction', hserver₂, hserver₁, hcommitted]
    rfl

def crossingEvents : List SqliteEvent :=
  [.start 0 (.addWorkerNode sqliteNode), .start 1 (.addWorkerNode otherSqliteNode), .resume 1,
    .resume 0, .resume 0]

theorem crossing_run (fallback : JsString → Date) :
    ∃ (s : SqliteSession plainSqlite) (e : Throwable),
      Run (SqliteStep plainSqlite fallback) usedSession crossingEvents s ∧
      s.tasks 0 = some (.done (.added (.ok ()) (sqliteNode.setId 8))) ∧
      s.tasks 1 = some (.done (.added (.error e) otherSqliteNode)) ∧ s.tasks 2 = none ∧
      (plainSqlite.database s.server).rows = [earlierRow, sqliteNodeRow] := by
  obtain ⟨opened, refused, s, e, hopen, -, hrefuse, hrest, hresults⟩ := crossing fallback
  exact ⟨s, e, Run.cons hopen (Run.cons hrefuse hrest), hresults⟩

variable {V : SqliteServer} {s₀ s₁ s s' : SqliteSession V}

theorem rowsOwned_run (h0 : s₀.IsIdle) (h : Run (SqliteStep V fallback) s₀ events s) :
    RowsOwned (V.database s₀.server).committed events (s.view V.database) := by
  have hidle : TableSession.IsIdle (s₀.view V.database) := h0
  exact RowsOwned.run hidle (table_run h)

/-- A call of `addWorkerNode` that has settled resolved with its row committed and the key of
it in the entity, or rejected with no row in the table and the entity as it was; whatever the
other calls do in between. -/
theorem sqlite_unit_of_work (h0 : s₀.IsIdle) (h : Run (SqliteStep V fallback) s₀ events s)
    (hstart : .start call (.addWorkerNode entity) ∈ events)
    (hsettled : s.tasks call = some (.done result)) :
    (∃ row ∈ (V.database s.server).committed, (V.database s.server).rowsOf (some call) = [row] ∧
      Describes entity row ∧ (∀ other ∈ (V.database s.server).rows, other.id = row.id → other = row) ∧
        result = .added (.ok ()) (entity.setId row.id)) ∨
      (V.database s.server).rowsOf (some call) = [] ∧ ∃ e, result = .added (.error e) entity := by
  rcases (rowsOwned_run h0 h).settled hstart (Or.inr hsettled) with
    ⟨row, hrow, hrows, describes, hresult⟩ | ⟨hrows, hresult⟩
  · refine Or.inl ⟨row, hrow, hrows, describes, fun other hother hid => ?_, hresult⟩
    exact List.inj_on_of_nodup_map (V.database s.server).keys_nodup hother
      (List.mem_append_left _ hrow) hid
  · exact Or.inr ⟨hrows, hresult⟩

/-- Of two calls that overlap, one resolves and the other is refused. -/
theorem sqlite_unit_of_work_crossing : ∃ s : SqliteSession plainSqlite,
    (∃ row ∈ (plainSqlite.database s.server).committed, row.id = 8 ∧ Describes sqliteNode row) ∧
      (plainSqlite.database s.server).rowsOf (some 1) = [] := by
  obtain ⟨s, e, hrun, hadded, hrejected, -⟩ := crossing_run readTimestamp
  refine ⟨s, ?_, ?_⟩
  · rcases sqlite_unit_of_work usedSession_isIdle hrun List.mem_cons_self hadded with
      ⟨row, hrow, -, describes, -, heq⟩ | ⟨-, e, heq⟩
    · exact ⟨row, hrow, (congrArg WorkerNodeEntity.id (DaoResult.added.inj heq).2).symm, describes⟩
    · cases heq
  · rcases sqlite_unit_of_work usedSession_isIdle hrun
      (List.mem_cons_of_mem _ List.mem_cons_self) hrejected with ⟨row, -, -, -, -, heq⟩ | ⟨hrows, -⟩
    · cases heq
    · exact hrows

/-- The table keeps all that was in it; what is committed besides are the rows of calls that
resolve. -/
theorem sqlite_table (h0 : s₀.IsIdle) (h : Run (SqliteStep V fallback) s₀ events s) :
    (V.database s.server).rowsOf none = (V.database s₀.server).committed ∧
      ∀ row ∈ (V.database s.server).committed, row ∈ (V.database s₀.server).committed ∨
        ∃ call entity, .start call (.addWorkerNode entity) ∈ events ∧ row.call = some call ∧
          Describes entity row ∧ s.HasResult call (.added (.ok ()) (entity.setId row.id)) := by
  have howned := rowsOwned_run h0 h
  refine ⟨howned.initial, fun row hrow => ?_⟩
  rcases howned.mem_rows (List.mem_append_left _ hrow) with
    hbefore | ⟨call, entity, hstart, hcall, describes, hresult⟩
  · exact Or.inl hbefore
  · exact Or.inr ⟨call, entity, hstart, hcall, describes, hresult hrow⟩

theorem sqlite_table_crossing : ∃ s : SqliteSession plainSqlite,
    sqliteNodeRow ∈ (plainSqlite.database s.server).rows ∧
      (plainSqlite.database s.server).rowsOf none = [earlierRow] ∧
      ∀ row ∈ (plainSqlite.database s.server).committed, row = earlierRow ∨
        ∃ call entity, .start call (.addWorkerNode entity) ∈ crossingEvents ∧ row.call = some call ∧
          Describes entity row ∧ s.HasResult call (.added (.ok ()) (entity.setId row.id)) := by
  obtain ⟨s, e, hrun, -, -, -, hrows⟩ := crossing_run readTimestamp
  obtain ⟨hinitial, hcommitted⟩ := sqlite_table usedSession_isIdle hrun
  refine ⟨s, hrows ▸ by simp, hinitial, fun row hrow => ?_⟩
  exact (hcommitted row hrow).imp List.mem_singleton.1 id

/-- A transaction that is open is that of one call and holds its row alone. That call can go
on, and its next turn ends it; the step of any other leaves the table alone, and an
`addWorkerNode` that is called meanwhile rejects. -/
theorem sqlite_transaction_isolated (h0 : s₀.IsIdle) (h : Run (SqliteStep V fallback) s₀ events s)
    {rows : List SqliteRow} (hopen : (V.database s.server).transaction = some rows) :
    ∃ call entity row, .start call (.addWorkerNode entity) ∈ events ∧ rows = [row] ∧
      row.call = some call ∧ Describes entity row ∧
      (∃ s', SqliteStep V fallback s (.resume call) s') ∧
      ∀ e s', SqliteStep V fallback s e s' →
        e = .resume call ∧ (V.database s'.server).transaction = none ∧
            (row ∈ (V.database s'.server).committed ∧
                s'.HasResult call (.added (.ok ()) (entity.setId row.id)) ∨
              row ∉ (V.database s'.server).rows ∧
                ∃ error, s'.HasResult call (.added (.error error) entity)) ∨
          e ≠ .resume call ∧ V.database s'.server = V.database s.server ∧
            ∀ other entity', e = .start other (.addWorkerNode entity') →
              ∃ error, s'.HasResult other (.added (.error error) entity') := by
  have howned := rowsOwned_run h0 h
  obtain ⟨call, entity, row, hstart, rfl, hcall, describes, hyield⟩ := howned.owner hopen
  obtain ⟨server, rest, hturn⟩ := exists_turn (V.answers call) (committing entity row.id) s.server
  refine ⟨call, entity, row, hstart, rfl, hcall, describes, ⟨_, .resume hyield hturn⟩,
    fun e s' hs => ?_⟩
  by_cases he : e = .resume call
  · subst he
    exact Or.inl ⟨rfl, resume_committing hyield hopen (table_step hs)⟩
  · refine Or.inr ⟨he, howned.step_of_open hopen hcall (table_step hs) he, ?_⟩
    rintro other entity' rfl
    exact rejected_of_open hopen (table_step hs)

/-- The call that meets the open transaction is refused, and the other one can go on. -/
theorem sqlite_transaction_isolated_crossing : ∃ (s s' : SqliteSession plainSqlite) (row : SqliteRow),
    (plainSqlite.database s.server).transaction = some [row] ∧ Describes sqliteNode row ∧
      SqliteStep plainSqlite readTimestamp s (.start 1 (.addWorkerNode otherSqliteNode))
        s' ∧
      plainSqlite.database s'.server = plainSqlite.database s.server ∧
      (∃ error, s'.HasResult 1 (.added (.error error) otherSqliteNode)) ∧
      ∃ s'', SqliteStep plainSqlite readTimestamp s (.resume 0) s'' := by
  obtain ⟨opened, refused, -, -, hstart, hopen, hrefuse, -⟩ := crossing readTimestamp
  have hrun : Run (SqliteStep plainSqlite readTimestamp) usedSession
      [.start 0 (.addWorkerNode sqliteNode)] opened := run_singleton.2 hstart
  obtain ⟨call, entity, row, hstarted, hrows, -, describes, hnext, hsteps⟩ :=
    sqlite_transaction_isolated usedSession_isIdle hrun hopen
  cases List.mem_singleton.1 hstarted
  rcases hsteps _ _ hrefuse with ⟨heq, -⟩ | ⟨-, hserver, hresult⟩
  · cases heq
  · exact ⟨opened, refused, row, hrows ▸ hopen, describes, hrefuse, hserver, hresult 1 _ rfl,
      hnext⟩

/-- A date that is bound is valid, and bound to its day. -/
theorem dayText_of_bound {time : ℤ} {day : JsString}
    (h : formatPattern (Date.timeClip time) DAY_PATTERN = .ok day) : IsTime time ∧ day = dayText time := by
  by_cases htime : IsTime time
  · have hformat := formatByDayPattern_of_time (Date.timeClip_of_isTime htime)
    rw [formatByDayPattern, h] at hformat
    exact ⟨htime, Option.some.inj (Except.ok.inj hformat)⟩
  · rw [formatPattern, Date.timeClip_of_not htime] at h
    cases h

theorem time_midnight {time : ℤ} (h : IsTime time) :
    (Date.timeClip (Date.day time * MS_PER_DAY)).time = some (Date.day time * MS_PER_DAY) := by
  refine Date.timeClip_of_isTime ?_
  unfold IsTime at h ⊢
  unfold Date.day MS_PER_DAY
  omega

/-- A lookup that is started after an entity was added finds a node at its host and port; if
no other was added there, it is that entity as it was left by `addWorkerNode`, but launched
at the midnight of the day of its launch date. -/
theorem sqlite_reads_added {adder reader : ℕ} {host port : String} {entity' : WorkerNodeEntity}
    {node : Option WorkerNode} {before after : List SqliteEvent} (h0 : s₀.IsIdle)
    (hrun : Run (SqliteStep V fallback) s₀ before s₁)
    (hadded : .start adder (.addWorkerNode entity) ∈ before)
    (hresolved : s₁.tasks adder = some (.done (.added (.ok ()) entity')))
    (hhost : entity.hostName = some host) (hport : entity.port = some port)
    (hrun' : Run (SqliteStep V fallback) s₁
      (.start reader (.getWorkerNodeByHostPort host port) :: after) s)
    (hfound : s.tasks reader = some (.done (.found (.ok node)))) :
    ∃ found, node = some found ∧ found.hostName = some host ∧ found.port = some port ∧
      ((∀ row ∈ (V.database s₀.server).committed, ¬(row.hostName = host ∧ row.port = port)) →
        (∀ other entity₂, .start other (.addWorkerNode entity₂) ∈ before →
          entity₂.hostName = some host → entity₂.port = some port → other = adder) →
        found.id = entity'.id ∧ found.type = entity'.type ∧
          ∃ time, entity'.launchDate = some time ∧
            (0 ≤ Date.getFullYear time → Date.getFullYear time < 10000 →
              ∃ date, found.launchDate = some date ∧
                date.time = some (Date.day time * MS_PER_DAY))) := by
  have howned := rowsOwned_run h0 hrun
  obtain ⟨row, hrow, hrows, describes, heq⟩ | ⟨-, e, heq⟩ := howned.settled hadded (Or.inr hresolved)
  swap
  · cases heq
  cases heq
  have hsplit : Run (SqliteStep V fallback) s₁
      ([] ++ .start reader (.getWorkerNodeByHostPort host port) :: after) s := hrun'
  obtain ⟨s₁', s₂, hnil, hstart, hafter⟩ := hsplit.split
  obtain rfl : s₁' = s₁ := run_nil.1 hnil
  have hmem : row ∈ (V.database s₁'.server).rows := List.mem_append_left _ hrow
  have hrowhost : row.hostName = host := Option.some.inj (describes.hostName.symm.trans hhost)
  have hrowport : row.port = port := Option.some.inj (describes.port.symm.trans hport)
  have hfound' {result : DaoResult} (hresult : (s₂.view V.database).HasResult reader result) :
      .found (.ok node) = result :=
    (hresult.run (table_run hafter)).eq_of_done hfound
  rcases start_getWorkerNodeByHostPort (table_step hstart) with
    ⟨e, hresult⟩ | ⟨seen, hseen, hseenhost, hseenport, hresult⟩ | ⟨hmissing, hresult⟩
  · cases hfound' hresult
  · cases hfound' hresult
    refine ⟨_, rfl, congrArg some hseenhost, congrArg some hseenport, fun hinitial hothers => ?_⟩
    obtain rfl : seen = row := by
      rcases howned.mem_rows hseen with hbefore | ⟨other, entity₂, hother, hcall, hdescribes, -⟩
      · exact absurd ⟨hseenhost, hseenport⟩ (hinitial seen hbefore)
      · obtain rfl : other = adder := hothers other entity₂ hother
          (hseenhost ▸ hdescribes.hostName) (hseenport ▸ hdescribes.port)
        exact List.mem_singleton.1 (hrows ▸ SqliteDatabase.mem_rowsOf.2 ⟨hseen, hcall⟩)
    obtain ⟨time, day, htime, hday, htext⟩ := describes.launchDate
    obtain ⟨hvalid, rfl⟩ := dayText_of_bound hday
    refine ⟨rfl, describes.type.symm, time, htime, fun hyear hyear' => ⟨_, rfl, ?_⟩⟩
    rw [← htext, ofText_dayText fallback hyear hyear', time_midnight hvalid]
  · exact absurd ⟨hrowhost, hrowport⟩ (hmissing row hmem)

/-- The node was launched at 12:34:56. -/
theorem sqlite_reads_added_crossing : ∃ (s : SqliteSession plainSqlite) (found : WorkerNode)
    (date : Date),
    s.tasks 2 = some (.done (.found (.ok (some found)))) ∧ found.id = 8 ∧
      found.launchDate = some date ∧ date.time = some 0 := by
  obtain ⟨s₁, e, hrun, hadded, -, hnone, hrows⟩ := crossing_run readTimestamp
  have hrow : sqliteNodeRow ∈ (plainSqlite.database s₁.server).rows := by simp [hrows]
  let seen : DaoResult := .found (.ok (some (mapWorkerNode readTimestamp sqliteNodeRow)))
  let started := s₁.proceed s₁.server 2 (.yield (.done seen))
  have hlookup : SqliteStep plainSqlite readTimestamp s₁
      (.start 2 (.getWorkerNodeByHostPort "10.0.0.1" "8080")) started := by
    refine .start hnone ?_
    rw [task_getWorkerNodeByHostPort]
    exact .exec (.selected hrow) .yield
  have hdone : SqliteStep plainSqlite readTimestamp started (.resume 2)
      (started.proceed s₁.server 2 (.done seen)) :=
    .resume (s₁.proceed_self _ _ _) .done
  have hsettled := started.proceed_self s₁.server 2 (.done seen)
  obtain ⟨found, hfound, -, -, hentity⟩ := sqlite_reads_added usedSession_isIdle hrun
    List.mem_cons_self hadded rfl rfl (Run.cons hlookup (run_singleton.2 hdone)) hsettled
  cases hfound
  have hothers : ∀ other entity, .start other (.addWorkerNode entity) ∈ crossingEvents →
      entity.hostName = some "10.0.0.1" → entity.port = some "8080" → other = 0 := by
    intro other entity hstart hhost _
    simp only [crossingEvents, List.mem_cons, Event.start.injEq, addWorkerNode.injEq, reduceCtorEq,
      List.not_mem_nil, or_false] at hstart
    rcases hstart with ⟨rfl, -⟩ | ⟨-, rfl⟩
    · rfl
    · exact absurd hhost (by decide)
  obtain ⟨hid, -, time, htime, hdate⟩ := hentity (by decide) hothers
  cases htime
  obtain ⟨date, hlaunch, hmidnight⟩ := hdate (by decide) (by decide)
  exact ⟨_, _, date, hsettled, hid, hlaunch, hmidnight⟩

end UID
