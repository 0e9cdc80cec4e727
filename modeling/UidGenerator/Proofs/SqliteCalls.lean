import UidGenerator.Proofs.SqliteSqlSession

/-! Runs of the calls of a `SqliteSqlSession`. A transaction that is open belongs to one
call of `addWorkerNode` and holds its row alone; every other row of the table was there at
first or is the row of a call that resolves. -/

namespace UID

open EventLoop Transition DaoCall

/-- The calls over what is seen of the database. -/
abbrev TableSession := Loop SqliteDatabase SqliteCommand SqliteReply DaoResult

abbrev TableStep (fallback : JsString → Date) : TableSession → SqliteEvent → TableSession → Prop :=
  EventLoop.Step (DaoCall.task fallback) SqliteExecutes

def TableSession.IsIdle (s : TableSession) : Prop :=
  (∀ call, s.tasks call = none) ∧ s.server.transaction = none ∧
    ∀ row ∈ s.server.committed, row.call = none

theorem table_step {V : SqliteServer} {fallback : JsString → Date} {s s' : SqliteSession V}
    {e : SqliteEvent} (h : SqliteStep V fallback s e s') :
    TableStep fallback (s.view V.database) e (s'.view V.database) :=
  h.view fun _ _ _ _ _ hexecutes => V.executes hexecutes

theorem table_run {V : SqliteServer} {fallback : JsString → Date} {s s' : SqliteSession V}
    {events : List SqliteEvent} (h : Run (SqliteStep V fallback) s events s') :
    Run (TableStep fallback) (s.view V.database) events (s'.view V.database) :=
  run_view (f := V.database) (fun _ _ _ _ _ hexecutes => V.executes hexecutes) h

variable {fallback : JsString → Date} {d d' : SqliteDatabase} {call other : ℕ}
  {entity : WorkerNodeEntity} {row : SqliteRow} {job : DaoCall} {next rest : SqliteTask DaoResult}
  {result : DaoResult} {events : List SqliteEvent} {s₀ s s' : TableSession}

namespace SqliteDatabase

@[simp] theorem rows_of_closed (h : d.transaction = none) : d.rows = d.committed := by
  rw [rows, uncommitted, h, Option.getD_none, List.append_nil]

theorem rows_of_open {rows : List SqliteRow} (h : d.transaction = some rows) :
    d.rows = d.committed ++ rows := by
  rw [SqliteDatabase.rows, uncommitted, h, Option.getD_some]

theorem rows_commit (d : SqliteDatabase) : d.commit.rows = d.rows :=
  rows_of_closed rfl

theorem rows_rollback (d : SqliteDatabase) : d.rollback.rows = d.committed :=
  rows_of_closed rfl

theorem rowsOf_of_open {caller : Option ℕ} (h : d.transaction = some [row]) :
    d.rowsOf caller =
      d.committed.filter (fun row => row.call = caller) ++ [row].filter fun row => row.call = caller := by
  rw [rowsOf, rows_of_open h, List.filter_append]

theorem mem_rowsOf {caller : Option ℕ} : row ∈ d.rowsOf caller ↔ row ∈ d.rows ∧ row.call = caller := by
  rw [rowsOf, List.mem_filter, decide_eq_true_iff]

/-- A row that is not committed yet has a key of its own. -/
theorem not_mem_committed (h : d.transaction = some [row]) : row ∉ d.committed := by
  intro hrow
  have hkeys := d.keys_nodup
  rw [h, Option.getD_some, List.map_append, List.map_singleton, List.nodup_append] at hkeys
  exact hkeys.2.2 row.id (List.mem_map_of_mem hrow) row.id (List.mem_singleton_self _) rfl

theorem insert_transaction {rows : List SqliteRow} {fresh : ∀ old ∈ d.rows, old.id ≠ row.id}
    (h : d.transaction = some rows) : (d.insert row fresh).transaction = some (rows ++ [row]) := by
  unfold insert
  split
  · rename_i hclosed
    rw [hclosed] at h
    cases h
  · rename_i rows' hopen
    obtain rfl : rows' = rows := Option.some.inj (hopen.symm.trans h)
    rfl

theorem insert_committed {rows : List SqliteRow} {fresh : ∀ old ∈ d.rows, old.id ≠ row.id}
    (h : d.transaction = some rows) : (d.insert row fresh).committed = d.committed := by
  unfold insert
  split
  · rename_i hclosed
    rw [hclosed] at h
    cases h
  · rfl

end SqliteDatabase

inductive Changes (call : ℕ) (d : SqliteDatabase) : SqliteDatabase → Prop
  | unchanged : Changes call d d
  | opened {d' : SqliteDatabase} {row : SqliteRow} (closed : d.transaction = none)
      (hcall : row.call = some call) (hopen : d'.transaction = some [row])
      (hcommitted : d'.committed = d.committed) : Changes call d d'
  | committed {row : SqliteRow} (hopen : d.transaction = some [row]) (hcall : row.call = some call) :
      Changes call d d.commit
  | rolledBack {row : SqliteRow} (hopen : d.transaction = some [row])
      (hcall : row.call = some call) : Changes call d d.rollback

theorem filter_of_other {caller : Option ℕ} (hcall : row.call = some call) (hne : caller ≠ some call) :
    [row].filter (fun row => row.call = caller) = [] := by
  rw [List.filter_singleton, decide_eq_false fun h => hne (h.symm.trans hcall)]
  rfl

namespace Changes

theorem rowsOf (h : Changes call d d') {caller : Option ℕ} (hne : caller ≠ some call) :
    d'.rowsOf caller = d.rowsOf caller := by
  cases h with
  | unchanged => rfl
  | @opened _ row closed hcall hopen hcommitted =>
    rw [SqliteDatabase.rowsOf_of_open hopen, filter_of_other hcall hne, List.append_nil, hcommitted,
      SqliteDatabase.rowsOf, SqliteDatabase.rows_of_closed closed]
  | committed hopen hcall => rw [SqliteDatabase.rowsOf, SqliteDatabase.rows_commit]; rfl
  | @rolledBack row hopen hcall =>
    rw [SqliteDatabase.rowsOf_of_open hopen, filter_of_other hcall hne, List.append_nil,
      SqliteDatabase.rowsOf, SqliteDatabase.rows_rollback]

/-- What is committed stays. -/
theorem mem_committed (h : Changes call d d') (hrow : row ∈ d.committed) : row ∈ d'.committed := by
  cases h with
  | unchanged => exact hrow
  | opened _ _ _ hcommitted => exact hcommitted ▸ hrow
  | committed _ _ => exact List.mem_append_left _ hrow
  | rolledBack _ _ => exact hrow

/-- The open transaction of another call is left alone. -/
theorem eq_of_open (h : Changes call d d') (hopen : d.transaction = some [row])
    (hcall : row.call ≠ some call) : d' = d := by
  cases h with
  | unchanged => rfl
  | opened closed => cases closed.symm.trans hopen
  | committed hopen' hcall' =>
    obtain rfl := List.singleton_inj.1 (Option.some.inj (hopen'.symm.trans hopen))
    exact absurd hcall' hcall
  | rolledBack hopen' hcall' =>
    obtain rfl := List.singleton_inj.1 (Option.some.inj (hopen'.symm.trans hopen))
    exact absurd hcall' hcall

end Changes

inductive Adds (d : SqliteDatabase) (call : ℕ) (entity : WorkerNodeEntity) :
    SqliteTask DaoResult → Prop
  | committing {row : SqliteRow} (hopen : d.transaction = some [row])
      (hrows : d.rowsOf (some call) = [row]) (describes : Describes entity row) :
      Adds d call entity (.yield (committing entity row.id))
  | resolved {row : SqliteRow} {task : SqliteTask DaoResult} (hrow : row ∈ d.committed)
      (hrows : d.rowsOf (some call) = [row]) (describes : Describes entity row)
      (htask : task = .done (.added (.ok ()) (entity.setId row.id)) ∨
        task = .yield (.done (.added (.ok ()) (entity.setId row.id)))) : Adds d call entity task
  | rejected {e : Throwable} {task : SqliteTask DaoResult} (hrows : d.rowsOf (some call) = [])
      (htask : task = .done (.added (.error e) entity) ∨
        task = .yield (.done (.added (.error e) entity))) : Adds d call entity task

theorem Adds.frame (h : Adds d other entity rest) (hchanges : Changes call d d')
    (hne : other ≠ call) : Adds d' other entity rest := by
  have hrowsOf := hchanges.rowsOf fun h => hne (Option.some.inj h)
  cases h with
  | @committing row hopen hrows describes =>
    have hmem : row ∈ d.rowsOf (some other) := hrows ▸ List.mem_singleton_self row
    have hcall := (SqliteDatabase.mem_rowsOf.1 hmem).2
    have hd : d' = d := hchanges.eq_of_open hopen fun h => hne (Option.some.inj (hcall.symm.trans h))
    exact hd ▸ .committing hopen hrows describes
  | resolved hrow hrows describes htask =>
    exact .resolved (hchanges.mem_committed hrow) (hrowsOf.trans hrows) describes htask
  | rejected hrows htask => exact .rejected (hrowsOf.trans hrows) htask

theorem Adds.start (hrows : d.rowsOf (some call) = [])
    (h : Turn (SqliteExecutes call) d (task fallback (.addWorkerNode entity)) d' rest) :
    Changes call d d' ∧ Adds d' call entity rest := by
  rcases turn_addWorkerNode h with ⟨rfl, e, rfl⟩ |
    ⟨row, fresh, closed, hcall, describes, rfl, rfl⟩
  · exact ⟨.unchanged, .rejected hrows (Or.inr rfl)⟩
  · have hempty : d.begin.transaction = some [] := rfl
    have hopen : (d.begin.insert row fresh).transaction = some [row] := by
      rw [SqliteDatabase.insert_transaction hempty, List.nil_append]
    have hcommitted : (d.begin.insert row fresh).committed = d.committed :=
      SqliteDatabase.insert_committed hempty
    rw [SqliteDatabase.rowsOf, SqliteDatabase.rows_of_closed closed] at hrows
    refine ⟨.opened closed hcall hopen hcommitted, .committing hopen ?_ describes⟩
    rw [SqliteDatabase.rowsOf_of_open hopen, hcommitted, hrows, List.nil_append,
      List.filter_singleton, decide_eq_true hcall]
    rfl

theorem Adds.resume (h : Adds d call entity (.yield next))
    (hturn : Turn (SqliteExecutes call) d next d' rest) :
    Changes call d d' ∧ Adds d' call entity rest := by
  cases h with
  | @committing row hopen hrows describes =>
    have hmem : row ∈ d.rowsOf (some call) := hrows ▸ List.mem_singleton_self row
    have hcall := (SqliteDatabase.mem_rowsOf.1 hmem).2
    rcases turn_committing hturn with ⟨rfl, rfl⟩ | ⟨rfl, e, rfl⟩
    · refine ⟨.committed hopen hcall, .resolved ?_ ?_ describes (Or.inr rfl)⟩
      · exact (SqliteDatabase.mem_rowsOf.1 hmem).1
      · rw [SqliteDatabase.rowsOf, SqliteDatabase.rows_commit]
        exact hrows
    · refine ⟨.rolledBack hopen hcall, .rejected (e := e) ?_ (Or.inr rfl)⟩
      rw [SqliteDatabase.rowsOf_of_open hopen, List.filter_singleton, decide_eq_true hcall] at hrows
      rw [SqliteDatabase.rowsOf, SqliteDatabase.rows_rollback]
      exact List.append_left_eq_self.1 hrows
  | resolved hrow hrows describes htask =>
    rcases htask with htask | htask
    · cases htask
    · cases htask
      obtain ⟨rfl, rfl⟩ := turn_done.1 hturn
      exact ⟨.unchanged, .resolved hrow hrows describes (Or.inl rfl)⟩
  | rejected hrows htask =>
    rcases htask with htask | htask
    · cases htask
    · cases htask
      obtain ⟨rfl, rfl⟩ := turn_done.1 hturn
      exact ⟨.unchanged, .rejected hrows (Or.inl rfl)⟩

/-- What is known of a call. A lookup has its result from its first turn on. -/
def Progress (d : SqliteDatabase) (call : ℕ) : DaoCall → SqliteTask DaoResult → Prop
  | .addWorkerNode entity, task => Adds d call entity task
  | .getWorkerNodeByHostPort _ _, task => d.rowsOf (some call) = [] ∧
    ∃ result, task = .done result ∨ task = .yield (.done result)

theorem Progress.frame (h : Progress d other job rest) (hchanges : Changes call d d')
    (hne : other ≠ call) : Progress d' other job rest := by
  cases job with
  | addWorkerNode entity => exact Adds.frame h hchanges hne
  | getWorkerNodeByHostPort host port =>
    exact ⟨(hchanges.rowsOf fun h => hne (Option.some.inj h)).trans h.1, h.2⟩

theorem Progress.start (hrows : d.rowsOf (some call) = [])
    (h : Turn (SqliteExecutes call) d (job.task fallback) d' rest) :
    Changes call d d' ∧ Progress d' call job rest := by
  cases job with
  | addWorkerNode entity => exact Adds.start hrows h
  | getWorkerNodeByHostPort host port =>
    obtain ⟨rfl, ⟨e, rfl⟩ | ⟨row, -, -, -, rfl⟩ | ⟨-, rfl⟩⟩ := turn_getWorkerNodeByHostPort h
    · exact ⟨.unchanged, hrows, _, Or.inl rfl⟩
    · exact ⟨.unchanged, hrows, _, Or.inr rfl⟩
    · exact ⟨.unchanged, hrows, _, Or.inr rfl⟩

theorem Progress.resume (h : Progress d call job (.yield next))
    (hturn : Turn (SqliteExecutes call) d next d' rest) :
    Changes call d d' ∧ Progress d' call job rest := by
  cases job with
  | addWorkerNode entity => exact Adds.resume h hturn
  | getWorkerNodeByHostPort host port =>
    obtain ⟨hrows, result, htask | htask⟩ := h
    · cases htask
    · cases htask
      obtain ⟨rfl, rfl⟩ := turn_done.1 hturn
      exact ⟨.unchanged, hrows, result, Or.inl rfl⟩

structure RowsOwned (before : List SqliteRow) (events : List SqliteEvent) (s : TableSession) : Prop where
  calls : ∀ call job, .start call job ∈ events →
    ∃ task, s.tasks call = some task ∧ Progress s.server call job task
  unique : ∀ call job job', .start call job ∈ events → .start call job' ∈ events → job' = job
  started : ∀ call task, s.tasks call = some task → ∃ job, .start call job ∈ events
  unstarted : ∀ call, s.tasks call = none → s.server.rowsOf (some call) = []
  initial : s.server.rowsOf none = before
  transaction : s.server.transaction = none ∨
    ∃ call row, s.server.transaction = some [row] ∧ row.call = some call

theorem RowsOwned.init (h : TableSession.IsIdle s) : RowsOwned s.server.committed [] s := by
  obtain ⟨htasks, hclosed, hrows⟩ := h
  refine ⟨fun _ _ h => absurd h List.not_mem_nil, fun _ _ _ h => absurd h List.not_mem_nil,
    fun call task htask => ?_, fun call _ => ?_, ?_, Or.inl hclosed⟩
  · rw [htasks call] at htask
    cases htask
  · rw [SqliteDatabase.rowsOf, SqliteDatabase.rows_of_closed hclosed, List.filter_eq_nil_iff]
    intro row hrow
    rw [hrows row hrow]
    simp
  · rw [SqliteDatabase.rowsOf, SqliteDatabase.rows_of_closed hclosed, List.filter_eq_self]
    intro row hrow
    rw [hrows row hrow]
    simp

theorem RowsOwned.proceed {before : List SqliteRow} {e : SqliteEvent} (h : RowsOwned before events s)
    (hchanges : Changes call s.server d') (hprogress : Progress d' call job rest)
    (hstart : .start call job ∈ events ++ [e])
    (hjob : ∀ job', .start call job' ∈ events ++ [e] → job' = job)
    (hothers : ∀ other ≠ call, ∀ job', .start other job' ∈ events ++ [e] →
      .start other job' ∈ events) :
    RowsOwned before (events ++ [e]) (s.proceed d' call rest) where
  calls other job' hother := by
    by_cases hne : other = call
    · subst hne
      exact ⟨rest, s.proceed_self _ _ _, hjob job' hother ▸ hprogress⟩
    · obtain ⟨task, htask, hprogress⟩ := h.calls other job' (hothers other hne job' hother)
      exact ⟨task, (s.proceed_of_ne _ hne _).trans htask, hprogress.frame hchanges hne⟩
  unique other job₁ job₂ h₁ h₂ := by
    by_cases hne : other = call
    · subst hne
      rw [hjob job₁ h₁, hjob job₂ h₂]
    · exact h.unique other job₁ job₂ (hothers other hne job₁ h₁) (hothers other hne job₂ h₂)
  started other task htask := by
    by_cases hne : other = call
    · exact ⟨job, hne ▸ hstart⟩
    · rw [s.proceed_of_ne _ hne] at htask
      obtain ⟨job', hmem⟩ := h.started other task htask
      exact ⟨job', List.mem_append_left _ hmem⟩
  unstarted other hnone := by
    by_cases hne : other = call
    · rw [hne, s.proceed_self] at hnone
      cases hnone
    · rw [s.proceed_of_ne _ hne] at hnone
      exact (hchanges.rowsOf fun h => hne (Option.some.inj h)).trans (h.unstarted other hnone)
  initial := (hchanges.rowsOf (Option.some_ne_none call).symm).trans h.initial
  transaction := by
    cases hchanges with
    | unchanged => exact h.transaction
    | opened _ hcall hopen _ => exact Or.inr ⟨call, _, hopen, hcall⟩
    | committed _ _ => exact Or.inl rfl
    | rolledBack _ _ => exact Or.inl rfl

/-- A call starts once. -/
theorem RowsOwned.not_started {before : List SqliteRow} (h : RowsOwned before events s)
    (hnone : s.tasks call = none) (job : DaoCall) : .start call job ∉ events := by
  intro hstart
  obtain ⟨task, htask, -⟩ := h.calls call job hstart
  rw [hnone] at htask
  cases htask

theorem RowsOwned.step {before : List SqliteRow} {e : SqliteEvent} (h : RowsOwned before events s)
    (hs : TableStep fallback s e s') : RowsOwned before (events ++ [e]) s' := by
  cases hs with
  | @start call job d' rest new hturn =>
    obtain ⟨hchanges, hprogress⟩ := Progress.start (h.unstarted call new) hturn
    refine h.proceed hchanges hprogress (by simp) (fun job' hjob => ?_) fun other hne job' hjob => ?_
    · rcases List.mem_append.1 hjob with hjob | hjob
      · exact absurd hjob (h.not_started new job')
      · exact (Event.start.inj (List.mem_singleton.1 hjob)).2
    · rcases List.mem_append.1 hjob with hjob | hjob
      · exact hjob
      · exact absurd (Event.start.inj (List.mem_singleton.1 hjob)).1 hne
  | @resume call next d' rest yielded hturn =>
    have hearlier {other : ℕ} {job : DaoCall}
        (hjob : .start other job ∈ events ++ [Event.resume call]) : .start other job ∈ events := by
      rcases List.mem_append.1 hjob with hjob | hjob
      · exact hjob
      · cases List.mem_singleton.1 hjob
    obtain ⟨job, hstart⟩ := h.started call _ yielded
    obtain ⟨task, htask, hprogress⟩ := h.calls call job hstart
    obtain rfl : task = .yield next := Option.some.inj (htask.symm.trans yielded)
    obtain ⟨hchanges, hprogress⟩ := hprogress.resume hturn
    exact h.proceed hchanges hprogress (List.mem_append_left _ hstart)
      (fun job' hjob => h.unique call job job' hstart (hearlier hjob)) fun _ _ _ => hearlier

theorem RowsOwned.run (h0 : TableSession.IsIdle s₀) (h : Run (TableStep fallback) s₀ events s) :
    RowsOwned s₀.server.committed events s :=
  h.invariant (RowsOwned s₀.server.committed) (RowsOwned.init h0) fun _ _ _ _ _ ih hs => ih.step hs

/-- A row with a call is that of a call of `addWorkerNode`. -/
theorem RowsOwned.adder {before : List SqliteRow} (h : RowsOwned before events s)
    (hrow : row ∈ s.server.rowsOf (some call)) :
    ∃ entity task, .start call (.addWorkerNode entity) ∈ events ∧ s.tasks call = some task ∧
      Adds s.server call entity task := by
  have hstarted : s.tasks call ≠ none := fun hnone => by
    rw [h.unstarted call hnone] at hrow
    cases hrow
  obtain ⟨_, hsome⟩ := Option.ne_none_iff_exists'.1 hstarted
  obtain ⟨job, hstart⟩ := h.started call _ hsome
  obtain ⟨task, htask, hprogress⟩ := h.calls call job hstart
  cases job with
  | addWorkerNode entity => exact ⟨entity, task, hstart, htask, hprogress⟩
  | getWorkerNodeByHostPort host port =>
    rw [hprogress.1] at hrow
    cases hrow

/-- The call whose row a transaction holds is the one that has opened it. -/
theorem RowsOwned.owner {before : List SqliteRow} (h : RowsOwned before events s) {rows : List SqliteRow}
    (hopen : s.server.transaction = some rows) :
    ∃ call entity row, .start call (.addWorkerNode entity) ∈ events ∧ rows = [row] ∧
      row.call = some call ∧ Describes entity row ∧
        s.tasks call = some (.yield (committing entity row.id)) := by
  rcases h.transaction with hclosed | ⟨call, row, hrow, hcall⟩
  · cases hclosed.symm.trans hopen
  · obtain rfl : rows = [row] := Option.some.inj (hopen.symm.trans hrow)
    have hmem : row ∈ s.server.rowsOf (some call) :=
      SqliteDatabase.mem_rowsOf.2 ⟨SqliteDatabase.rows_of_open hrow ▸ by simp, hcall⟩
    obtain ⟨entity, task, hstart, htask, hadds⟩ := h.adder hmem
    cases hadds with
    | @committing own hopen' hrows describes =>
      obtain rfl : row = own := List.mem_singleton.1 (hrows ▸ hmem)
      exact ⟨call, entity, row, hstart, rfl, hcall, describes, htask⟩
    | @resolved own _ hown hrows _ _ =>
      obtain rfl : row = own := List.mem_singleton.1 (hrows ▸ hmem)
      exact absurd hown (SqliteDatabase.not_mem_committed hrow)
    | rejected hrows _ =>
      rw [hrows] at hmem
      cases hmem

/-- The step of another call leaves the table alone while a transaction is open. -/
theorem RowsOwned.step_of_open {before : List SqliteRow} {e : SqliteEvent} (h : RowsOwned before events s)
    (hopen : s.server.transaction = some [row]) (hcall : row.call = some call)
    (hs : TableStep fallback s e s') (hne : e ≠ .resume call) : s'.server = s.server := by
  cases hs with
  | @start other job d' rest new hturn =>
    obtain ⟨hchanges, -⟩ := Progress.start (h.unstarted other new) hturn
    refine hchanges.eq_of_open hopen fun hother => ?_
    have hmem : row ∈ s.server.rowsOf (some other) :=
      SqliteDatabase.mem_rowsOf.2 ⟨SqliteDatabase.rows_of_open hopen ▸ by simp, hother⟩
    rw [h.unstarted other new] at hmem
    cases hmem
  | @resume other next d' rest yielded hturn =>
    obtain ⟨job, hstart⟩ := h.started other _ yielded
    obtain ⟨task, htask, hprogress⟩ := h.calls other job hstart
    obtain rfl : task = .yield next := Option.some.inj (htask.symm.trans yielded)
    obtain ⟨hchanges, -⟩ := hprogress.resume hturn
    refine hchanges.eq_of_open hopen fun hother => hne ?_
    rw [Option.some.inj (hcall.symm.trans hother)]

/-- There is no second transaction: the call that asks for one is rejected. -/
theorem rejected_of_open {rows : List SqliteRow} (hopen : s.server.transaction = some rows)
    (hs : TableStep fallback s (.start call (.addWorkerNode entity)) s') :
    ∃ e, s'.HasResult call (.added (.error e) entity) := by
  cases hs with
  | @start call job d' rest new hturn =>
    rcases turn_addWorkerNode hturn with ⟨-, e, rfl⟩ | ⟨row, fresh, closed, -⟩
    · exact ⟨e, Or.inl (s.proceed_self _ _ _)⟩
    · cases closed.symm.trans hopen

/-- The next turn of the call that has opened the transaction ends it. -/
theorem resume_committing (h : s.tasks call = some (.yield (committing entity row.id)))
    (hopen : s.server.transaction = some [row]) (hs : TableStep fallback s (.resume call) s') :
    s'.server.transaction = none ∧
      (row ∈ s'.server.committed ∧ s'.HasResult call (.added (.ok ()) (entity.setId row.id)) ∨
        row ∉ s'.server.rows ∧ ∃ e, s'.HasResult call (.added (.error e) entity)) := by
  cases hs with
  | @resume call next d' rest yielded hturn =>
    obtain rfl : next = committing entity row.id :=
      Task.yield.inj (Option.some.inj (yielded.symm.trans h))
    rcases turn_committing hturn with ⟨rfl, rfl⟩ | ⟨rfl, e, rfl⟩
    · have hrow : row ∈ s.server.rows :=
        SqliteDatabase.rows_of_open hopen ▸ List.mem_append_right _ (List.mem_singleton_self row)
      exact ⟨rfl, Or.inl ⟨hrow, Or.inl (s.proceed_self _ _ _)⟩⟩
    · refine ⟨rfl, Or.inr ⟨?_, e, Or.inl (s.proceed_self _ _ _)⟩⟩
      exact SqliteDatabase.rows_rollback s.server ▸ SqliteDatabase.not_mem_committed hopen

/-- The call that has opened the transaction can go on. -/
theorem exists_commit (h : s.tasks call = some (.yield (committing entity row.id)))
    (hopen : s.server.transaction = some [row]) :
    TableStep fallback s (.resume call) (s.proceed s.server.commit call (resolving entity row.id)) :=
  .resume h (.exec (.commit (by rw [hopen]; exact Option.some_ne_none _)) .yield)

/-- What a lookup comes to is settled in its first turn. -/
theorem start_getWorkerNodeByHostPort {host port : String}
    (hs : TableStep fallback s (.start call (.getWorkerNodeByHostPort host port)) s') :
    (∃ e, s'.HasResult call (.found (.error e))) ∨
      (∃ row ∈ s.server.rows, row.hostName = host ∧ row.port = port ∧
        s'.HasResult call (.found (.ok (some (mapWorkerNode fallback row))))) ∨
      (∀ row ∈ s.server.rows, ¬(row.hostName = host ∧ row.port = port)) ∧
        s'.HasResult call (.found (.ok none)) := by
  cases hs with
  | @start call job d' rest new hturn =>
    obtain ⟨-, ⟨e, rfl⟩ | ⟨row, hrow, hhost, hport, rfl⟩ | ⟨hrows, rfl⟩⟩ :=
      turn_getWorkerNodeByHostPort hturn
    · exact Or.inl ⟨e, Or.inr (s.proceed_self _ _ _)⟩
    · exact Or.inr (Or.inl ⟨row, hrow, hhost, hport, Or.inl (s.proceed_self _ _ _)⟩)
    · exact Or.inr (Or.inr ⟨hrows, Or.inl (s.proceed_self _ _ _)⟩)

/-- A row of the table is one of those before, or describes the entity of the call that has
added it. -/
theorem RowsOwned.mem_rows {before : List SqliteRow} (h : RowsOwned before events s)
    (hrow : row ∈ s.server.rows) :
    row ∈ before ∨ ∃ call entity, .start call (.addWorkerNode entity) ∈ events ∧
      row.call = some call ∧ Describes entity row ∧
        (row ∈ s.server.committed → s.HasResult call (.added (.ok ()) (entity.setId row.id))) := by
  cases hcall : row.call with
  | none => exact Or.inl (h.initial ▸ SqliteDatabase.mem_rowsOf.2 ⟨hrow, hcall⟩)
  | some call =>
    have hmem := SqliteDatabase.mem_rowsOf.2 ⟨hrow, hcall⟩
    obtain ⟨entity, task, hstart, htask, hadds⟩ := h.adder hmem
    refine Or.inr ⟨call, entity, hstart, rfl, ?_⟩
    cases hadds with
    | @committing own hopen hrows describes =>
      obtain rfl : row = own := List.mem_singleton.1 (hrows ▸ hmem)
      exact ⟨describes, fun hcommitted => absurd hcommitted (SqliteDatabase.not_mem_committed hopen)⟩
    | @resolved own _ hown hrows describes hresult =>
      obtain rfl : row = own := List.mem_singleton.1 (hrows ▸ hmem)
      refine ⟨describes, fun _ => ?_⟩
      rcases hresult with rfl | rfl
      · exact Or.inr htask
      · exact Or.inl htask
    | rejected hrows _ =>
      rw [hrows] at hmem
      cases hmem

/-- A call of `addWorkerNode` that has its result is a unit of work. -/
theorem RowsOwned.settled {before : List SqliteRow} (h : RowsOwned before events s)
    (hstart : .start call (.addWorkerNode entity) ∈ events) (hresult : s.HasResult call result) :
    (∃ row ∈ s.server.committed, s.server.rowsOf (some call) = [row] ∧ Describes entity row ∧
      result = .added (.ok ()) (entity.setId row.id)) ∨
    s.server.rowsOf (some call) = [] ∧ ∃ e, result = .added (.error e) entity := by
  obtain ⟨task, htask, hadds⟩ := h.calls call _ hstart
  have hcases : task = .yield (.done result) ∨ task = .done result :=
    hresult.imp (fun h => Option.some.inj (htask.symm.trans h))
      fun h => Option.some.inj (htask.symm.trans h)
  cases hadds with
  | committing => rcases hcases with hcases | hcases <;> cases hcases
  | @resolved row _ hrow hrows describes htask =>
    refine Or.inl ⟨row, hrow, hrows, describes, ?_⟩
    rcases htask with rfl | rfl <;> rcases hcases with hcases | hcases <;> cases hcases <;> rfl
  | @rejected e _ hrows htask =>
    refine Or.inr ⟨hrows, e, ?_⟩
    rcases htask with rfl | rfl <;> rcases hcases with hcases | hcases <;> cases hcases <;> rfl

end UID
