import UidGenerator.Lib.Run
import UidGenerator.Proofs.Phases

/-! Calls of `addWorkerNode` as units of work. The transaction that their commands act on
is that of the connection: a ROLLBACK undoes the rows of whatever calls have inserted since
the last transaction was started. -/

namespace UID

open Async Transition

variable {S : MysqlServer} {t t' : Calls S} {events : List SessionEvent} {e : SessionEvent} {call : ℕ}
  {id : ℤ} {w : UnitOfWork}

namespace Database

variable {d : Database} {rows : List WorkerNodeRow} {row row' : WorkerNodeRow}

@[simp] theorem rows_closed : (⟨rows, none⟩ : Database).rows = rows := List.append_nil rows

@[simp] theorem rows_begun : (⟨rows, some []⟩ : Database).rows = rows := List.append_nil rows

theorem rows_insert (d : Database) (row : WorkerNodeRow) : (d.insert row).rows = d.rows ++ [row] := by
  obtain ⟨committed, transaction⟩ := d
  cases transaction <;> simp [insert, Database.rows, uncommitted]

theorem mem_uncommitted_insert (h : row ∈ (d.insert row').uncommitted) :
    row ∈ d.uncommitted ∨ row = row' := by
  obtain ⟨committed, transaction⟩ := d
  cases transaction with
  | none => exact (List.not_mem_nil h).elim
  | some rows => simpa [insert, uncommitted] using h

theorem committed_subset_insert (d : Database) (row : WorkerNodeRow) :
    d.committed ⊆ (d.insert row).committed := by
  obtain ⟨committed, transaction⟩ := d
  cases transaction <;> simp [insert]

theorem committed_subset_rows (d : Database) : d.committed ⊆ d.rows :=
  List.subset_append_left _ _

end Database

theorem Inserts.mem_rows {values : List SqlValue} (h : Inserts t t' call id values)
    {row : WorkerNodeRow} : row ∈ (S.database t'.server).rows ↔
      row ∈ (S.database t.server).rows ∨ row = ⟨id, values, some call⟩ := by
  rw [h.database, Database.rows_insert, List.mem_append, List.mem_singleton]

structure NoInsert (t t' : Calls S) : Prop where
  rows : (S.database t'.server).rows.Sublist (S.database t.server).rows
  uncommitted : (S.database t'.server).uncommitted ⊆ (S.database t.server).uncommitted
  inserted : Reached HasInserted t' = Reached HasInserted t

theorem StepCases.noInsert_or (h : StepCases S t e t') :
    NoInsert t t' ∨ ∃ call id values, Inserts t t' call id values := by
  have hnone {d : Database} (hd : S.database t'.server = d) (huncommitted : d.uncommitted = [])
      (hrows : d.rows.Sublist (S.database t.server).rows)
      (inserted : Reached HasInserted t' = Reached HasInserted t) : NoInsert t t' := by
    subst hd
    exact ⟨hrows, by simp [huncommitted], inserted⟩
  cases h with
  | quiet _ database inserted _ =>
    left
    exact ⟨by rw [database], by rw [database]; exact List.Subset.refl _, inserted⟩
  | began _ database inserted _ =>
    left
    exact hnone database rfl (by simp) inserted
  | committed _ database inserted =>
    left
    exact hnone database rfl (by simp) inserted
  | rolledBack _ database inserted _ =>
    left
    apply hnone database rfl _ inserted
    rw [Database.rows_closed]
    exact List.sublist_append_left _ _
  | inserted _ call id values inserts _ =>
    right
    exact ⟨call, id, values, inserts⟩

/-- The rows of the table belong to calls that have inserted them, each call has one at
most, and the open transaction holds no others. -/
structure Owned (t : Calls S) : Prop where
  inserted : ∀ row ∈ (S.database t.server).rows, ∀ call, row.call = some call →
    Reached HasInserted t call row.id row.values
  nodup : ((S.database t.server).rows.filterMap WorkerNodeRow.call).Nodup
  calls : ∀ row ∈ (S.database t.server).uncommitted, row.call ≠ none

theorem Owned.step (h : Owned t) (hstep : StepCases S t e t') : Owned t' := by
  obtain hno | ⟨call, id, values, hinsert⟩ := hstep.noInsert_or
  · refine ⟨?_, h.nodup.sublist (hno.rows.filterMap _), ?_⟩
    · intro row hrow call hcall
      rw [hno.inserted]
      exact h.inserted row (hno.rows.subset hrow) call hcall
    · intro row hrow
      exact h.calls row (hno.uncommitted hrow)
  · refine ⟨?_, ?_, ?_⟩
    · intro row hrow c hc
      rw [hinsert.inserted]
      rcases hinsert.mem_rows.1 hrow with hrow | rfl
      · exact Or.inl (h.inserted row hrow c hc)
      · exact Or.inr ⟨(Option.some.inj hc).symm, rfl, rfl⟩
    · rw [hinsert.database, Database.rows_insert, List.filterMap_append]
      apply List.Nodup.append h.nodup (by simp)
      -- no row of the call can be there before its insert
      simp only [List.filterMap_cons, List.filterMap_nil, List.disjoint_singleton, List.mem_filterMap,
        not_exists, not_and]
      intro row hrow hcall
      exact hinsert.new _ _ (h.inserted row hrow call hcall)
    · intro row hrow
      rw [hinsert.database] at hrow
      rcases Database.mem_uncommitted_insert hrow with hrow | rfl
      · exact h.calls row hrow
      · simp

def Lost (t : Calls S) (call : ℕ) : Prop :=
  (∃ id values, Reached HasInserted t call id values) ∧
    ∀ row ∈ (S.database t.server).rows, row.call ≠ some call

/-- A row that is lost does not come back, for no call inserts twice. -/
theorem Lost.step (h : Lost t call) (hstep : StepCases S t e t') : Lost t' call := by
  obtain ⟨⟨id, values, hcall⟩, hrows⟩ := h
  obtain hno | ⟨c, i, vs, hinsert⟩ := hstep.noInsert_or
  · exact ⟨⟨id, values, hno.inserted ▸ hcall⟩, fun row hrow => hrows row (hno.rows.subset hrow)⟩
  · refine ⟨⟨id, values, (hinsert.inserted _ _ _).2 (Or.inl hcall)⟩, ?_⟩
    intro row hrow
    rcases hinsert.mem_rows.1 hrow with hrow | rfl
    · exact hrows row hrow
    · rintro ⟨⟩
      exact hinsert.new _ _ hcall

/-- If the step is a ROLLBACK, the open transaction holds no row. -/
def KeepsRows (S : MysqlServer) {π : Type} (s : System S.State Command CommandOutcome π)
    (e : SessionEvent) : Prop :=
  IsRollback e → (S.database s.server).uncommitted = []

/-- A row that the open transaction holds is lost in a ROLLBACK. -/
theorem keepsRows_or_lost (h : Owned t) (hstep : StepCases S t e t') :
    KeepsRows S t e ∨ ∃ call, Lost t' call := by
  cases hstep with
  | quiet event | began event | committed event | inserted event =>
    exact Or.inl fun hrollback => (event hrollback).elim
  | rolledBack event database inserted _ =>
    cases hrows : (S.database t.server).uncommitted with
    | nil => exact Or.inl fun _ => hrows
    | cons row rows =>
      have hrow : row ∈ (S.database t.server).uncommitted := by simp [hrows]
      obtain ⟨call, hcall⟩ := Option.ne_none_iff_exists'.1 (h.calls row hrow)
      refine Or.inr ⟨call, ⟨row.id, row.values, ?_⟩, ?_⟩
      · rw [inserted]
        exact h.inserted row (List.mem_append_right _ hrow) call hcall
      · intro row' hrow' hcall'
        have hcommitted : row' ∈ (S.database t.server).committed := by
          simpa [database, Database.rows, Database.uncommitted] using hrow'
        have hnodup := h.nodup
        rw [Database.rows, List.filterMap_append] at hnodup
        exact List.disjoint_of_nodup_append hnodup (List.mem_filterMap.2 ⟨row', hcommitted, hcall'⟩)
          (List.mem_filterMap.2 ⟨row, hrow, hcall⟩)

/-- The rows of all calls that have inserted are in the table, and those of the calls that
have committed are committed. -/
structure Kept (t : Calls S) : Prop where
  inserted : ∀ call id values, Reached HasInserted t call id values →
    ⟨id, values, some call⟩ ∈ (S.database t.server).rows
  committed : ∀ call id values, Reached HasCommitted t call id values →
    ⟨id, values, some call⟩ ∈ (S.database t.server).committed

theorem Kept.mono (h : Kept t)
    (hrows : (S.database t.server).rows ⊆ (S.database t'.server).rows)
    (hcommitted : (S.database t.server).committed ⊆ (S.database t'.server).committed)
    (inserted : Reached HasInserted t' = Reached HasInserted t)
    (committed : Reached HasCommitted t' = Reached HasCommitted t) : Kept t' := by
  constructor
  · rw [inserted]
    exact fun call id values hcall => hrows (h.inserted call id values hcall)
  · rw [committed]
    exact fun call id values hcall => hcommitted (h.committed call id values hcall)

theorem Kept.step (h : Kept t) (hstep : StepCases S t e t') (hkeeps : KeepsRows S t e) : Kept t' := by
  cases hstep with
  | quiet _ database inserted committed =>
    refine h.mono ?_ ?_ inserted committed <;> rw [database]
    · exact List.Subset.refl _
    · exact List.Subset.refl _
  | began _ database inserted committed =>
    refine h.mono ?_ ?_ inserted committed <;> rw [database]
    · exact List.subset_append_left _ _
    · exact Database.committed_subset_rows _
  | committed _ database inserted =>
    refine ⟨?_, fun call id values ⟨p, hp, hcommitted, hvalues⟩ => ?_⟩
    · rw [inserted, database]
      intro call id values hcall
      exact List.mem_append_left _ (h.inserted call id values hcall)
    · -- a call that has committed has inserted, and all rows are committed now
      have hinserted : Reached HasInserted t' call id values := ⟨p, hp, hcommitted.hasInserted, hvalues⟩
      rw [inserted] at hinserted
      rw [database]
      exact h.inserted call id values hinserted
  | rolledBack event database inserted committed =>
    refine h.mono ?_ ?_ inserted committed <;> rw [database]
    · rw [Database.rows, hkeeps event, List.append_nil]
      exact List.subset_append_left _ _
    · exact List.Subset.refl _
  | inserted _ call id values inserts committed =>
    constructor
    · intro c i vs hcall
      rw [inserts.mem_rows]
      rcases (inserts.inserted c i vs).1 hcall with hcall | ⟨rfl, rfl, rfl⟩
      · exact Or.inl (h.inserted c i vs hcall)
      · exact Or.inr rfl
    · rw [inserts.database, committed]
      exact fun c i vs hcall => Database.committed_subset_insert _ _ (h.committed c i vs hcall)

structure Grounded (events : List SessionEvent) (t : Calls S) : Prop where
  accounted : Accounted events t
  owned : Owned t

theorem Grounded.step (h : Grounded events t) (hstep : CallStep S t e t') :
    Grounded (events ++ [e]) t' :=
  ⟨h.accounted.step hstep, h.owned.step (h.accounted.cases hstep)⟩

section
variable {server : S.State}

theorem not_reached_empty {P : UnitOfWork × Option CommandOutcome → ℤ → Prop} {values : List SqlValue} :
    ¬Reached P ({ server } : Calls S) call id values := by
  simp [Reached]

theorem grounded_empty (hopen : (S.database server).transaction = none)
    (hcalls : ∀ row ∈ (S.database server).committed, row.call = none) :
    Grounded [] ({ server } : Calls S) := by
  have hrows : (S.database server).rows = (S.database server).committed := by
    simp [Database.rows, Database.uncommitted, hopen]
  refine ⟨accounted_empty, ?_, ?_, ?_⟩
  · intro row hrow call hcall
    rw [hrows] at hrow
    rw [hcalls row hrow] at hcall
    cases hcall
  · rw [hrows, List.filterMap_eq_nil_iff.2 hcalls]
    exact List.nodup_nil
  · simp [Database.uncommitted, hopen]

theorem kept_empty : Kept ({ server } : Calls S) :=
  ⟨fun _ _ _ h => (not_reached_empty h).elim, fun _ _ _ h => (not_reached_empty h).elim⟩

end

def KeptCallStep (S : MysqlServer) (t : Calls S) (e : SessionEvent) (t' : Calls S) : Prop :=
  CallStep S t e t' ∧ KeepsRows S t e

variable {t₀ : Calls S}

theorem kept_run (h0 : Grounded [] t₀) (hkept : Kept t₀) (hrun : Run (KeptCallStep S) t₀ events t) :
    Grounded events t ∧ Kept t := by
  refine hrun.invariant (fun events t => Grounded events t ∧ Kept t) ⟨h0, hkept⟩ ?_
  intro events t e t' _ ⟨hground, hkept⟩ ⟨hstep, hkeeps⟩
  exact ⟨hground.step hstep, hkept.step (hground.accounted.cases hstep) hkeeps⟩

/-- Once a ROLLBACK has undone a row, some call has lost its row for good. -/
theorem kept_or_lost_run (h0 : Grounded [] t₀) (hrun : Run (CallStep S) t₀ events t) :
    Grounded events t ∧ (Run (KeptCallStep S) t₀ events t ∨ ∃ call, Lost t call) := by
  refine hrun.invariant (fun events t => Grounded events t ∧
    (Run (KeptCallStep S) t₀ events t ∨ ∃ call, Lost t call)) ⟨h0, Or.inl Run.nil⟩ ?_
  intro events t e t' _ ⟨hground, hcases⟩ hstep
  have hstepCases := hground.accounted.cases hstep
  refine ⟨hground.step hstep, ?_⟩
  rcases hcases with hrun | ⟨call, hlost⟩
  · rcases keepsRows_or_lost hground.owned hstepCases with hkeeps | hlost
    · exact Or.inl (hrun.snoc ⟨hstep, hkeeps⟩)
    · exact Or.inr hlost
  · exact Or.inr ⟨call, hlost.step hstepCases⟩

/-- The call with this entity has settled as one unit of work: its row is committed and the
entity has the key, or there is no row and the entity is unchanged. -/
inductive SettledAsUnit (s : Session S) (call : ℕ) (entity : WorkerNodeEntity) : Prop
  | resolved (row : WorkerNodeRow) (settled : SettledAs s call (.ok ()) (entity.setId row.id))
      (committed : row ∈ (S.database s.server).committed) (owner : row.call = some call)
      (values : row.values = entity.parameters entity.launchDate)
  | rejected (e : Throwable) (settled : SettledAs s call (.error e) entity)
      (noRow : ∀ row ∈ (S.database s.server).rows, row.call ≠ some call)

def KeptStep (S : MysqlServer) (s : Session S) (e : SessionEvent) (s' : Session S) : Prop :=
  SessionStep S s e s' ∧ KeepsRows S s e

/-- A call that has no more code to run has resolved or rejected. -/
theorem UnitOfWork.phase_of_done {result : Except Throwable Unit × WorkerNodeEntity}
    (h : w.continuation = .done result) :
    (∃ id, w.phase = .resolved id) ∨ ∃ e, w.phase = .rejected e := by
  obtain ⟨entity, phase⟩ := w
  cases phase with
  | beginning =>
    change addWorkerNode.run.run entity = _ at h
    rw [addWorkerNode_eq] at h
    cases h
  | inserting | committing | rollingBack => cases h
  | resolved id => exact Or.inl ⟨id, rfl⟩
  | rejected e => exact Or.inr ⟨e, rfl⟩

/-- Where all rows are kept, every call that has settled is one unit of work. -/
theorem settledAsUnit_of_kept (hground : Grounded events t) (hkept : Kept t)
    (hsettled : AllSettled (t.map UnitOfWork.continuation)) {entity : WorkerNodeEntity}
    (hstart : .start call entity ∈ events) :
    SettledAsUnit (t.map UnitOfWork.continuation) call entity := by
  obtain ⟨phase, last, hcall⟩ := hground.accounted.given hstart
  have hmap : (t.map UnitOfWork.continuation).processes call =
      some ((⟨entity, phase⟩ : UnitOfWork).continuation, last) := by
    simp only [System.map, hcall, Option.map_some]
  obtain ⟨result, hdone⟩ := hsettled call _ _ hmap
  have hlast (h : ∀ outcome, ¬phase.Accepts outcome) : last = none := by
    cases last with
    | none => rfl
    | some outcome => exact (h outcome ((hground.accounted.of_some hcall).2 outcome rfl)).elim
  obtain ⟨id, rfl⟩ | ⟨e, rfl⟩ := UnitOfWork.phase_of_done hdone
  · obtain rfl := hlast fun _ h => h
    exact .resolved ⟨id, entity.parameters entity.launchDate, some call⟩ hmap
      (hkept.committed call id _ ⟨_, hcall, Or.inr rfl, rfl⟩) rfl rfl
  · obtain rfl := hlast fun _ h => h
    refine .rejected e hmap fun row hrow howner => ?_
    obtain ⟨p, hp, hinserted, -⟩ := hground.owned.inserted row hrow call howner
    rw [hcall, Option.some.injEq] at hp
    subst hp
    simp [HasInserted] at hinserted

/-- A call that has lost its row is none. -/
theorem Lost.not_settledAsUnit (hground : Grounded events t) (hlost : Lost t call) :
    ∃ entity, .start call entity ∈ events ∧
      ¬SettledAsUnit (t.map UnitOfWork.continuation) call entity := by
  obtain ⟨⟨id, values, ⟨w, last⟩, hcall, hinserted, -⟩, hrows⟩ := hlost
  refine ⟨w.entity, hground.accounted.started hcall, fun hunit => ?_⟩
  cases hunit with
  | resolved row _ committed owner _ =>
    exact hrows row (Database.committed_subset_rows _ committed) owner
  | rejected e settled _ =>
    obtain ⟨w', hw', hdone⟩ := System.map_eq_some settled
    rw [hcall, Option.some.injEq, Prod.mk.injEq] at hw'
    obtain ⟨rfl, rfl⟩ := hw'
    obtain ⟨entity, phase⟩ := w
    simp only [HasInserted] at hinserted
    rcases hinserted with ⟨-, hlast⟩ | rfl | rfl
    · cases hlast
    · cases hdone
    · cases hdone

section
variable {s₀ s : Session S}

theorem IsIdle.eq_map (h : IsIdle s₀) :
    s₀ = ({ server := s₀.server } : Calls S).map UnitOfWork.continuation := by
  obtain ⟨server, queue, processes⟩ := s₀
  obtain ⟨hqueue, hprocesses, -, -⟩ := h
  obtain rfl : queue = [] := hqueue
  obtain rfl : processes = fun _ => none := funext hprocesses
  rfl

/-- Every run of the session is one of the calls, for the steps of either that match. -/
theorem calls_of_session (h : IsIdle s₀) {step : Session S → SessionEvent → Session S → Prop}
    (step' : Calls S → SessionEvent → Calls S → Prop)
    (hstep : ∀ (t : Calls S) (e : SessionEvent) (s' : Session S),
      step (t.map UnitOfWork.continuation) e s' →
        ∃ t', s' = t'.map UnitOfWork.continuation ∧ step' t e t')
    (hrun : Run step s₀ events s) :
    ∃ t, s = t.map UnitOfWork.continuation ∧ Run step' { server := s₀.server } events t := by
  refine hrun.simulate (R := fun s (t : Calls S) => s = t.map UnitOfWork.continuation) ?_ h.eq_map
  rintro _ e s' t rfl hs
  exact hstep t e s' hs

/-- And every run of the calls is one of the session. -/
theorem session_of_calls (h : IsIdle s₀) (step : Session S → SessionEvent → Session S → Prop)
    {step' : Calls S → SessionEvent → Calls S → Prop}
    (hstep : ∀ t e t', step' t e t' →
      step (t.map UnitOfWork.continuation) e (t'.map UnitOfWork.continuation))
    (hrun : Run step' { server := s₀.server } events t) :
    Run step s₀ events (t.map UnitOfWork.continuation) := by
  obtain ⟨s, rfl, hrun⟩ := hrun.simulate
    (R := fun (t : Calls S) s => s = t.map UnitOfWork.continuation) (fun t e t' s hs h => by
      subst hs
      exact ⟨_, rfl, hstep t e t' h⟩) h.eq_map
  exact hrun

end

def plainServer : MysqlServer where
  State := Database
  database d := d
  execute := Executes
  executes h := h

def firstNode : WorkerNodeEntity where
  hostName := some "10.0.0.1"
  port := some "1500000000000-1"
  type := 2
  launchDate := some 1500000000000

def secondNode : WorkerNodeEntity := { firstNode with hostName := some "10.0.0.2" }

def insertNode (entity : WorkerNodeEntity) : Command :=
  .query (addWorkerNodeSql MYSQL_DIALECT) (entity.parameters entity.launchDate)

/-- The insert of call 1 fails, and its ROLLBACK comes after the COMMIT of call 0. -/
def keptCalls : List SessionEvent :=
  [.start 0 firstNode, .start 1 secondNode, .execute 0 .beginTransaction (.ok none), .resume 0,
    .execute 1 .beginTransaction (.ok none), .resume 1,
    .execute 0 (insertNode firstNode) (.ok (some 1)), .resume 0,
    .execute 1 (insertNode secondNode) (.error (.error "Lock wait timeout exceeded")), .resume 1,
    .execute 0 .commit (.ok none), .execute 1 .rollback (.ok none), .resume 0, .resume 1]

/-- The insert of call 0 fails after call 1 has started its transaction, and the ROLLBACK
comes between the insert and the COMMIT of call 1. -/
def crossedCalls : List SessionEvent :=
  [.start 0 secondNode, .start 1 firstNode, .execute 0 .beginTransaction (.ok none), .resume 0,
    .execute 1 .beginTransaction (.ok none), .resume 1,
    .execute 0 (insertNode secondNode) (.error (.error "Lock wait timeout exceeded")), .resume 0,
    .execute 1 (insertNode firstNode) (.ok (some 1)), .resume 1, .execute 0 .rollback (.ok none),
    .execute 1 .commit (.ok none), .resume 0, .resume 1]

theorem plainServer_isIdle : IsIdle ({ server := ({} : Database) } : Session plainServer) :=
  ⟨rfl, fun _ => rfl, rfl, fun _ hrow => (List.not_mem_nil hrow).elim⟩

theorem keptCalls_run : ∃ t : Calls plainServer,
    Run (KeptCallStep plainServer) { server := ({} : Database) } keptCalls t ∧
      ∀ call, t.processes call =
        if call = 0 then some (⟨firstNode, .resolved 1⟩, none)
        else if call = 1 then some (⟨secondNode, .rejected (.error "Lock wait timeout exceeded")⟩, none)
        else none := by
  have hkeeps {s : Calls plainServer} {e : SessionEvent} (h : ¬IsRollback e) :
      KeepsRows plainServer s e := fun hrollback => (h hrollback).elim
  refine ⟨_, Run.cons ⟨.start rfl, hkeeps (by simp [IsRollback])⟩ <|
    Run.cons ⟨.start rfl, hkeeps (by simp [IsRollback])⟩ <|
    Run.cons ⟨.execute rfl rfl .beginTransaction, hkeeps (by simp [IsRollback])⟩ <|
    Run.cons ⟨.resume rfl, hkeeps (by simp [IsRollback])⟩ <|
    Run.cons ⟨.execute rfl rfl .beginTransaction, hkeeps (by simp [IsRollback])⟩ <|
    Run.cons ⟨.resume rfl, hkeeps (by simp [IsRollback])⟩ <|
    Run.cons ⟨.execute rfl rfl (.inserted fun _ hrow => (List.not_mem_nil hrow).elim),
      hkeeps (by simp [IsRollback, insertNode])⟩ <|
    Run.cons ⟨.resume rfl, hkeeps (by simp [IsRollback])⟩ <|
    Run.cons ⟨.execute rfl rfl .failed, hkeeps (by simp [IsRollback, insertNode])⟩ <|
    Run.cons ⟨.resume rfl, hkeeps (by simp [IsRollback])⟩ <|
    Run.cons ⟨.execute rfl rfl .commit, hkeeps (by simp [IsRollback])⟩ <|
    -- the COMMIT has left no row to be undone
    Run.cons ⟨.execute rfl rfl .rollback, fun _ => rfl⟩ <|
    Run.cons ⟨.resume rfl, hkeeps (by simp [IsRollback])⟩ <|
    Run.cons ⟨.resume rfl, hkeeps (by simp [IsRollback])⟩ Run.nil, fun call => ?_⟩
  by_cases h0 : call = 0
  · subst h0
    rfl
  · by_cases h1 : call = 1
    · subst h1
      rfl
    · simp [System.proceed, System.answer, h0, h1]

theorem crossedCalls_run : ∃ t : Calls plainServer,
    Run (CallStep plainServer) { server := ({} : Database) } crossedCalls t ∧
      t.server = ({} : Database) ∧
      ∀ call, t.processes call =
        if call = 0 then some (⟨secondNode, .rejected (.error "Lock wait timeout exceeded")⟩, none)
        else if call = 1 then some (⟨firstNode, .resolved 1⟩, none) else none := by
  refine ⟨_, Run.cons (.start rfl) <| Run.cons (.start rfl) <|
    Run.cons (.execute rfl rfl .beginTransaction) <| Run.cons (.resume rfl) <|
    Run.cons (.execute rfl rfl .beginTransaction) <| Run.cons (.resume rfl) <|
    Run.cons (.execute rfl rfl .failed) <| Run.cons (.resume rfl) <|
    Run.cons (.execute rfl rfl (.inserted fun _ hrow => (List.not_mem_nil hrow).elim)) <|
    Run.cons (.resume rfl) <| Run.cons (.execute rfl rfl .rollback) <|
    Run.cons (.execute rfl rfl .commit) <| Run.cons (.resume rfl) <| Run.cons (.resume rfl) Run.nil,
    rfl, fun call => ?_⟩
  by_cases h0 : call = 0
  · subst h0
    rfl
  · by_cases h1 : call = 1
    · subst h1
      rfl
    · simp [System.proceed, System.answer, h0, h1]

/-- Once all calls have settled, they are units of work if and only if no ROLLBACK was
executed that undid a row. -/
theorem addWorkerNode_settledAsUnit_iff {s₀ s : Session S} (hidle : IsIdle s₀)
    (hrun : Run (SessionStep S) s₀ events s) (hsettled : AllSettled s) :
    (∀ call entity, .start call entity ∈ events → SettledAsUnit s call entity) ↔
      Run (KeptStep S) s₀ events s := by
  have hground := grounded_empty hidle.2.2.1 hidle.2.2.2
  constructor
  · intro hunits
    obtain ⟨t, rfl, hcalls⟩ := calls_of_session hidle (CallStep S)
      (fun t e s' hs => unitOfWork_simulates.step continuation_start hs) hrun
    obtain ⟨hground', hkept | ⟨call, hlost⟩⟩ := kept_or_lost_run hground hcalls
    · exact session_of_calls hidle (KeptStep S) (fun t e t' ⟨hs, hkeeps⟩ =>
        ⟨unitOfWork_simulates.map_step continuation_start hs, hkeeps⟩) hkept
    · obtain ⟨entity, hstart, hnot⟩ := hlost.not_settledAsUnit hground'
      exact (hnot (hunits call entity hstart)).elim
  · intro hkept call entity hstart
    obtain ⟨t, rfl, hcalls⟩ := calls_of_session hidle (KeptCallStep S)
      (fun t e s' ⟨hs, hkeeps⟩ => by
        obtain ⟨t', rfl, hstep⟩ := unitOfWork_simulates.step continuation_start hs
        exact ⟨t', rfl, hstep, hkeeps⟩) hkept
    obtain ⟨hground', hrows⟩ := kept_run hground kept_empty hcalls
    exact settledAsUnit_of_kept hground' hrows hsettled hstart

/-- Two calls that cross, one of which resolves and one of which rejects. -/
theorem addWorkerNode_settledAsUnit_keptCalls : ∃ s : Session plainServer,
    Run (SessionStep plainServer) { server := ({} : Database) } keptCalls s ∧
      SettledAsUnit s 0 firstNode ∧ SettledAsUnit s 1 secondNode := by
  obtain ⟨t, hrun, hprocesses⟩ := keptCalls_run
  have hkept := session_of_calls plainServer_isIdle (KeptStep plainServer) (fun t e t' ⟨hs, hkeeps⟩ =>
    ⟨unitOfWork_simulates.map_step continuation_start hs, hkeeps⟩) hrun
  have hsettled : AllSettled (t.map UnitOfWork.continuation) := by
    intro call continuation reply hcall
    obtain ⟨w, hw, rfl⟩ := System.map_eq_some hcall
    rw [hprocesses] at hw
    split_ifs at hw <;> cases hw
    · exact ⟨_, rfl⟩
    · exact ⟨_, rfl⟩
  have hunits := (addWorkerNode_settledAsUnit_iff plainServer_isIdle
    (hkept.mono fun _ _ _ h => h.1) hsettled).2 hkept
  exact ⟨_, hkept.mono fun _ _ _ h => h.1, hunits 0 firstNode (by simp [keptCalls]),
    hunits 1 secondNode (by simp [keptCalls])⟩

/-- Call 1 resolves with the key of a row that the ROLLBACK of call 0 has undone. -/
theorem crossedCalls_not_settledAsUnit : ∃ s : Session plainServer,
    Run (SessionStep plainServer) { server := ({} : Database) } crossedCalls s ∧ AllSettled s ∧
      IsIdle ({ server := ({} : Database) } : Session plainServer) ∧
      SettledAs s 1 (.ok ()) (firstNode.setId 1) ∧ (plainServer.database s.server).rows = [] ∧
      ¬∀ call entity, .start call entity ∈ crossedCalls → SettledAsUnit s call entity := by
  obtain ⟨t, hrun, hserver, hprocesses⟩ := crossedCalls_run
  have hsettled : SettledAs (t.map UnitOfWork.continuation) 1 (.ok ()) (firstNode.setId 1) := by
    simp only [SettledAs, System.map, hprocesses]
    rfl
  refine ⟨t.map UnitOfWork.continuation, session_of_calls plainServer_isIdle _ (fun t e t' hs =>
    unitOfWork_simulates.map_step continuation_start hs) hrun, ?_, plainServer_isIdle,
    hsettled, ?_, ?_⟩
  · intro call continuation reply hcall
    obtain ⟨w, hw, rfl⟩ := System.map_eq_some hcall
    rw [hprocesses] at hw
    split_ifs at hw <;> cases hw
    · exact ⟨_, rfl⟩
    · exact ⟨_, rfl⟩
  · simp only [System.map, hserver]
    rfl
  · intro hunits
    cases hunits 1 firstNode (by simp [crossedCalls]) with
    | resolved row _ committed _ _ =>
      simp only [System.map, hserver] at committed
      exact List.not_mem_nil committed
    | rejected e settled _ =>
      rw [SettledAs, hsettled] at settled
      cases settled

end UID
