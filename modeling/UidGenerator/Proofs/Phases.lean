import UidGenerator.Spec.MysqlSqlSession

/-! The phases of `addWorkerNode`. Between two `await`s a call is in one of a few phases,
which stand for the code that it still has to run; what a step of the calls does to the
table is said once, for every command in its phase. -/

namespace UID

open Async

variable {S : MysqlServer}

inductive Phase
  | beginning
  | inserting
  | committing (id : ℤ)
  | rollingBack (e : Throwable)
  | resolved (id : ℤ)
  | rejected (e : Throwable)

namespace Phase

def next : Phase → CommandOutcome → Phase
  | beginning, .ok _ => inserting
  | beginning, .error e => rejected e
  | inserting, .ok insertId => committing (insertId.getD 0)
  | inserting, .error e => rollingBack e
  | committing id, .ok _ => resolved id
  | committing _, .error e => rollingBack e
  | rollingBack e, .ok _ => rejected e
  | rollingBack _, .error e => rejected e
  | resolved id, _ => resolved id
  | rejected e, _ => rejected e

end Phase

/-- A call in its phase, with the entity that it was given. -/
structure UnitOfWork where
  entity : WorkerNodeEntity
  phase : Phase := .beginning

namespace UnitOfWork

def values (w : UnitOfWork) : List SqlValue := w.entity.parameters w.entity.launchDate

def command (w : UnitOfWork) : Option Command :=
  match w.phase with
  | .beginning => some .beginTransaction
  | .inserting => some (.query (addWorkerNodeSql MYSQL_DIALECT) w.values)
  | .committing _ => some .commit
  | .rollingBack _ => some .rollback
  | .resolved _ => none
  | .rejected _ => none

def machine : Machine Command CommandOutcome UnitOfWork where
  command := command
  next w outcome := { w with phase := w.phase.next outcome }

def rollingBack (entity : WorkerNodeEntity) (e : Throwable) : Continuation :=
  .await .rollback fun
    | .ok _ => .done (.error e, entity)
    | .error e => .done (.error e, entity)

def committing (entity : WorkerNodeEntity) (id : ℤ) : Continuation :=
  .await .commit fun
    | .ok _ => .done (.ok (), entity.setId id)
    | .error e => rollingBack entity e

def inserting (entity : WorkerNodeEntity) : Continuation :=
  .await (.query (addWorkerNodeSql MYSQL_DIALECT) (entity.parameters entity.launchDate)) fun
    | .ok insertId => committing entity (insertId.getD 0)
    | .error e => rollingBack entity e

def continuation (w : UnitOfWork) : Continuation :=
  match w.phase with
  | .beginning => addWorkerNode.run.run w.entity
  | .inserting => inserting w.entity
  | .committing id => committing w.entity id
  | .rollingBack e => rollingBack w.entity e
  | .resolved id => .done (.ok (), w.entity.setId id)
  | .rejected e => .done (.error e, w.entity)

end UnitOfWork

theorem await_congr {κ ρ α : Type} {command : κ} {next next' : ρ → Program κ ρ α}
    (h : ∀ reply, next reply = next' reply) :
    Program.await command next = Program.await command next' :=
  congrArg (Program.await command) (funext h)

/-- `addWorkerNode` up to its second `await`. -/
theorem addWorkerNode_eq (entity : WorkerNodeEntity) :
    addWorkerNode.run.run entity = .await .beginTransaction fun
      | .ok _ => UnitOfWork.inserting entity
      | .error e => .done (.error e, entity) := by
  have hrollback (e : Throwable) {next : CommandOutcome → Continuation}
      (hok : ∀ v, next (.ok v) = .done (.error e, entity))
      (herror : ∀ e, next (.error e) = .done (.error e, entity)) :
      Program.await .rollback next = UnitOfWork.rollingBack entity e := by
    apply await_congr
    intro outcome
    cases outcome with
    | ok v => exact hok v
    | error e => exact herror e
  apply await_congr
  intro outcome
  cases outcome with
  | error e => rfl
  | ok _ =>
    apply await_congr
    intro outcome
    cases outcome with
    | error e => exact hrollback e (fun _ => rfl) (fun _ => rfl)
    | ok insertId =>
      apply await_congr
      intro outcome
      cases outcome with
      | error e => exact hrollback e (fun _ => rfl) (fun _ => rfl)
      | ok _ => rfl

/-- The phases are those of the code. -/
theorem unitOfWork_simulates :
    Simulates continuations UnitOfWork.machine UnitOfWork.continuation where
  command w := by
    obtain ⟨entity, phase⟩ := w
    cases phase with
    | beginning =>
      change continuations.command (addWorkerNode.run.run entity) = _
      rw [addWorkerNode_eq]
      rfl
    | _ => rfl
  next w outcome := by
    obtain ⟨entity, phase⟩ := w
    cases phase with
    | beginning =>
      change continuations.next (addWorkerNode.run.run entity) outcome = _
      rw [addWorkerNode_eq]
      cases outcome <;> rfl
    | _ => cases outcome <;> rfl

theorem continuation_start (entity : WorkerNodeEntity) :
    addWorkerNode.run.run entity = UnitOfWork.continuation { entity } := rfl

def Phase.Accepts : Phase → CommandOutcome → Prop
  | .inserting, outcome => (∃ id, outcome = .ok (some id)) ∨ ∃ e, outcome = .error e
  | .resolved _, _ => False
  | .rejected _, _ => False
  | _, outcome => outcome = .ok none

def HasInserted (p : UnitOfWork × Option CommandOutcome) (id : ℤ) : Prop :=
  p.1.phase = .inserting ∧ p.2 = some (.ok (some id)) ∨ p.1.phase = .committing id ∨
    p.1.phase = .resolved id

/-- A call that has also been answered its COMMIT. -/
def HasCommitted (p : UnitOfWork × Option CommandOutcome) (id : ℤ) : Prop :=
  p.1.phase = .committing id ∧ p.2.isSome ∨ p.1.phase = .resolved id

variable {d d' : Database} {w : UnitOfWork} {outcome : CommandOutcome} {command : Command} {call : ℕ}
  {id : ℤ}

theorem Executes.accepts (h : Executes d call command outcome d') (hw : w.command = some command) :
    w.phase.Accepts outcome := by
  obtain ⟨entity, phase⟩ := w
  cases phase <;> cases hw <;> cases h
  · rfl
  · exact Or.inl ⟨_, rfl⟩
  · exact Or.inr ⟨_, rfl⟩
  · rfl
  · rfl

theorem hasInserted_answer : HasInserted (w, some outcome) id ↔
    HasInserted (w, none) id ∨ w.phase = .inserting ∧ outcome = .ok (some id) := by
  simp only [HasInserted, Option.some.injEq, reduceCtorEq, and_false, false_or]
  tauto

theorem hasCommitted_answer : HasCommitted (w, some outcome) id ↔
    HasCommitted (w, none) id ∨ w.phase = .committing id := by
  simp only [HasCommitted, Option.isSome_some, Option.isSome_none, Bool.false_eq_true, and_true,
    and_false, false_or]
  tauto

/-- Going on with an outcome is the same as having it. -/
theorem hasInserted_next (h : w.phase.Accepts outcome) :
    HasInserted (UnitOfWork.machine.next w outcome, none) id ↔ HasInserted (w, some outcome) id := by
  obtain ⟨entity, phase⟩ := w
  cases phase with
  | inserting =>
    obtain ⟨id', rfl⟩ | ⟨e, rfl⟩ := h <;> simp [HasInserted, UnitOfWork.machine, Phase.next]
  | resolved | rejected => exact h.elim
  | _ =>
    obtain rfl : outcome = .ok none := h
    simp [HasInserted, UnitOfWork.machine, Phase.next]

theorem hasCommitted_next (h : w.phase.Accepts outcome) :
    HasCommitted (UnitOfWork.machine.next w outcome, none) id ↔ HasCommitted (w, some outcome) id := by
  obtain ⟨entity, phase⟩ := w
  cases phase with
  | inserting =>
    obtain ⟨id', rfl⟩ | ⟨e, rfl⟩ := h <;> simp [HasCommitted, UnitOfWork.machine, Phase.next]
  | resolved | rejected => exact h.elim
  | _ =>
    obtain rfl : outcome = .ok none := h
    simp [HasCommitted, UnitOfWork.machine, Phase.next]

theorem HasCommitted.hasInserted {p : UnitOfWork × Option CommandOutcome} (h : HasCommitted p id) :
    HasInserted p id := by
  rcases h with ⟨h, -⟩ | h
  · exact Or.inr (Or.inl h)
  · exact Or.inr (Or.inr h)

abbrev Calls (S : MysqlServer) := System S.State Command CommandOutcome UnitOfWork

abbrev CallStep (S : MysqlServer) : Calls S → SessionEvent → Calls S → Prop :=
  Step UnitOfWork.machine (fun entity => { entity }) S.execute

variable {t t' : Calls S} {events : List SessionEvent} {e : SessionEvent}

/-- What is known of a call from its state: that it was started with its entity, or that it
was not, and which outcomes it can have been given. -/
def AccountsFor (events : List SessionEvent) (call : ℕ) :
    Option (UnitOfWork × Option CommandOutcome) → Prop
  | none => ∀ entity, .start call entity ∉ events
  | some (w, last) => (∀ entity, .start call entity ∈ events ↔ entity = w.entity) ∧
      ∀ outcome, last = some outcome → w.phase.Accepts outcome

theorem AccountsFor.snoc {p : Option (UnitOfWork × Option CommandOutcome)}
    (h : AccountsFor events call p) (hno : ∀ entity, e ≠ .start call entity) :
    AccountsFor (events ++ [e]) call p := by
  have hmem (entity : WorkerNodeEntity) :
      .start call entity ∈ events ++ [e] ↔ .start call entity ∈ events := by
    rw [List.mem_append, List.mem_singleton, or_iff_left (hno entity).symm]
  cases p with
  | none =>
    intro entity
    rw [hmem]
    exact h entity
  | some p => exact ⟨fun entity => (hmem entity).trans (h.1 entity), h.2⟩

structure Accounted (events : List SessionEvent) (t : Calls S) : Prop where
  queued : Queued UnitOfWork.machine t
  calls : ∀ call, AccountsFor events call (t.processes call)

theorem accounted_empty {server : S.State} : Accounted [] ({ server } : Calls S) :=
  ⟨queued_empty _, fun _ _ => List.not_mem_nil⟩

theorem Accounted.of_some (h : Accounted events t) {last : Option CommandOutcome}
    (hcall : t.processes call = some (w, last)) : AccountsFor events call (some (w, last)) :=
  hcall ▸ h.calls call

theorem Accounted.given (h : Accounted events t) {entity : WorkerNodeEntity}
    (hstart : .start call entity ∈ events) :
    ∃ phase last, t.processes call = some (⟨entity, phase⟩, last) := by
  cases hcall : t.processes call with
  | none =>
    have hno := h.calls call
    rw [hcall] at hno
    exact (hno entity hstart).elim
  | some p =>
    obtain ⟨w, last⟩ := p
    obtain rfl := ((h.of_some hcall).1 entity).1 hstart
    exact ⟨w.phase, last, rfl⟩

theorem Accounted.started (h : Accounted events t) {last : Option CommandOutcome}
    (hcall : t.processes call = some (w, last)) : .start call w.entity ∈ events :=
  ((h.of_some hcall).1 w.entity).2 rfl

/-- One call goes on, with the entity that it has. -/
theorem Accounted.update (h : Accounted events t) (queued : Queued UnitOfWork.machine t')
    {last last' : Option CommandOutcome} {w' : UnitOfWork}
    (hold : t.processes call = some (w, last))
    (hnew : t'.processes = Function.update t.processes call (some (w', last')))
    (hentity : w'.entity = w.entity)
    (hlast : ∀ outcome, last' = some outcome → w'.phase.Accepts outcome)
    (hno : ∀ call entity, e ≠ .start call entity) : Accounted (events ++ [e]) t' := by
  refine ⟨queued, fun c => ?_⟩
  apply AccountsFor.snoc _ (hno c)
  rw [hnew]
  by_cases hc : c = call
  · subst hc
    rw [Function.update_self]
    refine ⟨?_, hlast⟩
    rw [hentity]
    exact (h.of_some hold).1
  · rw [Function.update_of_ne hc]
    exact h.calls c

theorem Accounted.step (h : Accounted events t) (hstep : CallStep S t e t') :
    Accounted (events ++ [e]) t' := by
  have hqueued := h.queued.step hstep
  cases hstep with
  | @start call entity new =>
    refine ⟨hqueued, fun c => ?_⟩
    simp only [System.proceed]
    by_cases hc : c = call
    · subst hc
      have hno := h.calls c
      rw [new] at hno
      rw [Function.update_self]
      refine ⟨fun entity' => ?_, by simp⟩
      rw [List.mem_append, List.mem_singleton, or_iff_right (hno entity'), Event.start.injEq]
      exact and_iff_right rfl
    · rw [Function.update_of_ne hc]
      apply (h.calls c).snoc
      intro entity' heq
      exact hc (Event.start.inj heq).1.symm
  | execute first waiting hexecute =>
    have hcommand := (h.queued.first first waiting).2
    apply h.update hqueued waiting rfl rfl _ (by simp)
    intro outcome heq
    obtain rfl := Option.some.inj heq
    exact (S.executes hexecute).accepts hcommand
  | resume replied => exact h.update hqueued replied rfl rfl (by simp) (by simp)

/-- Call number `call`, which inserts these values, has come to `P` with this key. -/
def Reached (P : UnitOfWork × Option CommandOutcome → ℤ → Prop) (t : Calls S) (call : ℕ) (id : ℤ)
    (values : List SqlValue) : Prop :=
  ∃ p, t.processes call = some p ∧ P p id ∧ p.1.values = values

variable {P : UnitOfWork × Option CommandOutcome → ℤ → Prop} {p : UnitOfWork × Option CommandOutcome}
  {values : List SqlValue}

theorem reached_iff (hp : t.processes call = some p) :
    Reached P t call id values ↔ P p id ∧ p.1.values = values := by
  simp [Reached, hp]

theorem reached_update (hp : t'.processes = Function.update t.processes call (some p)) {c : ℕ} :
    Reached P t' c id values ↔
      if c = call then P p id ∧ p.1.values = values else Reached P t c id values := by
  unfold Reached
  rw [hp]
  split_ifs with hc
  · subst hc
    simp
  · rw [Function.update_of_ne hc]

/-- A step that brings no call to `P` and takes none from it. -/
theorem reached_congr (hp : t'.processes = Function.update t.processes call (some p))
    (h : ∀ id values, P p id ∧ p.1.values = values ↔ Reached P t call id values) :
    Reached P t' = Reached P t := by
  funext c id values
  rw [eq_iff_iff, reached_update hp]
  split_ifs with hc
  · subst hc
    exact h id values
  · rfl

structure Inserts (t t' : Calls S) (call : ℕ) (id : ℤ) (values : List SqlValue) : Prop where
  database : S.database t'.server = (S.database t.server).insert ⟨id, values, some call⟩
  new : ∀ id values, ¬Reached HasInserted t call id values
  inserted : ∀ c i vs, Reached HasInserted t' c i vs ↔
    Reached HasInserted t c i vs ∨ c = call ∧ i = id ∧ vs = values

def IsRollback (e : SessionEvent) : Prop := ∃ call outcome, e = .execute call .rollback outcome

inductive StepCases (S : MysqlServer) (t : Calls S) (e : SessionEvent) (t' : Calls S) : Prop
  | quiet (event : ¬IsRollback e) (database : S.database t'.server = S.database t.server)
      (inserted : Reached HasInserted t' = Reached HasInserted t)
      (committed : Reached HasCommitted t' = Reached HasCommitted t)
  | began (event : ¬IsRollback e)
      (database : S.database t'.server = ⟨(S.database t.server).rows, some []⟩)
      (inserted : Reached HasInserted t' = Reached HasInserted t)
      (committed : Reached HasCommitted t' = Reached HasCommitted t)
  | committed (event : ¬IsRollback e)
      (database : S.database t'.server = ⟨(S.database t.server).rows, none⟩)
      (inserted : Reached HasInserted t' = Reached HasInserted t)
  | rolledBack (event : IsRollback e)
      (database : S.database t'.server = ⟨(S.database t.server).committed, none⟩)
      (inserted : Reached HasInserted t' = Reached HasInserted t)
      (committed : Reached HasCommitted t' = Reached HasCommitted t)
  | inserted (event : ¬IsRollback e) (call : ℕ) (id : ℤ) (values : List SqlValue)
      (inserts : Inserts t t' call id values)
      (committed : Reached HasCommitted t' = Reached HasCommitted t)

/-- A call is answered, and has not inserted by that. -/
theorem reached_hasInserted_answer (hwaiting : t.processes call = some (w, none))
    (h : ∀ id, ¬(w.phase = .inserting ∧ outcome = .ok (some id))) (server : S.State) :
    Reached HasInserted (t.answer server call w outcome) = Reached HasInserted t := by
  apply reached_congr rfl
  intro id values
  rw [reached_iff hwaiting, hasInserted_answer, or_iff_left (h id)]

theorem reached_hasCommitted_answer (hwaiting : t.processes call = some (w, none))
    (h : ∀ id, w.phase ≠ .committing id) (server : S.State) :
    Reached HasCommitted (t.answer server call w outcome) = Reached HasCommitted t := by
  apply reached_congr rfl
  intro id values
  rw [reached_iff hwaiting, hasCommitted_answer, or_iff_left (h id)]

theorem Accounted.cases (h : Accounted events t) (hstep : CallStep S t e t') : StepCases S t e t' := by
  cases hstep with
  | @start call entity new =>
    refine .quiet (by simp [IsRollback]) rfl ?_ ?_
    · apply reached_congr rfl
      simp [Reached, new, HasInserted]
    · apply reached_congr rfl
      simp [Reached, new, HasCommitted]
  | @execute call command outcome server w last first waiting hexecute =>
    obtain ⟨rfl, hcommand⟩ := h.queued.first first waiting
    have hdatabase := S.executes hexecute
    generalize hd : S.database server = d at hdatabase
    obtain ⟨entity, phase⟩ := w
    cases phase with
    | beginning =>
      cases hcommand
      cases hdatabase with
      | beginTransaction =>
        exact .began (by simp [IsRollback]) hd (reached_hasInserted_answer waiting (by simp) _)
          (reached_hasCommitted_answer waiting (by simp) _)
    | inserting =>
      cases hcommand
      cases hdatabase with
      | @inserted _ _ id fresh =>
        refine .inserted (by simp [IsRollback]) call id _ ⟨hd, ?_, ?_⟩
          (reached_hasCommitted_answer waiting (by simp) _)
        · intro i vs
          rw [reached_iff waiting]
          simp [HasInserted]
        · intro c i vs
          rw [reached_update rfl]
          split_ifs with hc
          · subst hc
            rw [reached_iff waiting]
            simp [HasInserted, UnitOfWork.values, eq_comm]
          · simp [hc]
      | failed =>
        exact .quiet (by simp [IsRollback]) hd (reached_hasInserted_answer waiting (by simp) _)
          (reached_hasCommitted_answer waiting (by simp) _)
    | committing id =>
      cases hcommand
      cases hdatabase with
      | commit =>
        exact .committed (by simp [IsRollback]) hd (reached_hasInserted_answer waiting (by simp) _)
    | rollingBack e =>
      cases hcommand
      cases hdatabase with
      | rollback =>
        exact .rolledBack ⟨call, _, rfl⟩ hd (reached_hasInserted_answer waiting (by simp) _)
          (reached_hasCommitted_answer waiting (by simp) _)
    | resolved | rejected => cases hcommand
  | @resume call w outcome replied =>
    have haccepts := (h.of_some replied).2 outcome rfl
    refine .quiet (by simp [IsRollback]) rfl ?_ ?_
    · apply reached_congr rfl
      intro id values
      rw [reached_iff replied, hasInserted_next haccepts]
      rfl
    · apply reached_congr rfl
      intro id values
      rw [reached_iff replied, hasCommitted_next haccepts]
      rfl

end UID
