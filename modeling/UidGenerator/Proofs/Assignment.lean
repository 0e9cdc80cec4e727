import UidGenerator.Proofs.Phases
import UidGenerator.Spec.Cluster

/-! How far a node has come in `assignWorkerId`, and what that says of the table. Other
connections leave the rows of a node alone, and no one undoes a row that is committed. -/

namespace UID

open Async

def assigned (result : Except Throwable Unit × WorkerNodeEntity) :
    Except Throwable ℤ × WorkerNodeEntity :=
  (result.1.map fun _ => result.2.id, result.2)

theorem assignWorkerId_eq (entity : WorkerNodeEntity) :
    assignWorkerId.run.run entity = (addWorkerNode.run.run entity).map assigned := by
  rw [← Program.bind_done]
  change Program.bind (addWorkerNode.run.run entity) _ = _
  congr 1
  funext ⟨outcome, entity⟩
  cases outcome <;> rfl

/-- The code that a call in this phase still has to run. -/
def UnitOfWork.assignment (w : UnitOfWork) : Assignment := w.continuation.map assigned

theorem assignment_start (entity : WorkerNodeEntity) :
    assignWorkerId.run.run entity = UnitOfWork.assignment { entity } :=
  assignWorkerId_eq entity

theorem assignment_simulates : Simulates assignments UnitOfWork.machine UnitOfWork.assignment :=
  (Program.map_simulates assigned).trans unitOfWork_simulates

theorem UnitOfWork.phase_of_assigned {w : UnitOfWork} {workerId : ℤ} {entity : WorkerNodeEntity}
    (h : w.assignment = .done (.ok workerId, entity)) : w.phase = .resolved workerId := by
  obtain ⟨e, phase⟩ := w
  cases phase with
  | beginning =>
    rw [assignment, show (⟨e, .beginning⟩ : UnitOfWork).continuation = addWorkerNode.run.run e from rfl,
      addWorkerNode_eq] at h
    cases h
  | inserting | committing | rollingBack => cases h
  | rejected => cases h
  | resolved id =>
    obtain ⟨hid, -⟩ := Prod.mk.inj (Program.done.inj h)
    rw [← Except.ok.inj hid]
    rfl

namespace WorkerNodeTable

variable {table table' : WorkerNodeTable} {node other : ℕ} {id : ℤ} {command : Command}
  {outcome : CommandOutcome}

def HasRow (table : WorkerNodeTable) (node : ℕ) (id : ℤ) : Prop :=
  ∃ row ∈ table.rows, row.id = id ∧ row.node = some node

def HasCommitted (table : WorkerNodeTable) (node : ℕ) (id : ℤ) : Prop :=
  ∃ row ∈ table.rows, row.id = id ∧ row.node = some node ∧ row.committed = true

def Keeps (row : SharedRow) (table : WorkerNodeTable) : Prop :=
  ∃ row' ∈ table.rows, row'.id = row.id ∧ row'.node = row.node ∧
    (row.committed = true → row'.committed = true)

theorem HasRow.pos (h : table.HasRow node id) : 0 < id := by
  obtain ⟨row, hrow, rfl, -⟩ := h
  exact table.keys_pos row hrow

theorem HasCommitted.hasRow (h : table.HasCommitted node id) : table.HasRow node id := by
  obtain ⟨row, hrow, hid, hnode, -⟩ := h
  exact ⟨row, hrow, hid, hnode⟩

/-- A key is that of one row, so of one node. -/
theorem HasRow.node_eq (h : table.HasRow node id) (h' : table.HasRow other id) : node = other := by
  obtain ⟨row, hrow, hid, hnode⟩ := h
  obtain ⟨row', hrow', hid', hnode'⟩ := h'
  obtain rfl := List.inj_on_of_nodup_map table.keys_nodup hrow hrow' (hid.trans hid'.symm)
  exact Option.some.inj (hnode.symm.trans hnode')

theorem keeps_of_mem {row : SharedRow} (h : row ∈ table.rows) : Keeps row table :=
  ⟨row, h, rfl, rfl, fun hcommitted => hcommitted⟩

theorem keeps_commit (node : ℕ) {row : SharedRow} (h : row ∈ table.rows) :
    Keeps row (table.commit node) := by
  refine ⟨_, List.mem_map_of_mem h, rfl, rfl, fun hcommitted => ?_⟩
  simp only [hcommitted, Bool.true_or]

theorem keeps_rollback {row : SharedRow} (h : row ∈ table.rows)
    (hkept : row.committed = true ∨ row.node ≠ some node) : Keeps row (table.rollback node) := by
  refine keeps_of_mem (List.mem_filter.2 ⟨h, ?_⟩)
  rcases hkept with hcommitted | hnode
  · simp [SharedRow.isOpen, hcommitted]
  · simp [SharedRow.isOpen, hnode]

theorem keeps_insertRow {row row' : SharedRow} (h : row ∈ table.rows) (hid : table.Generates row'.id) :
    Keeps row (table.insertRow row' hid) :=
  keeps_of_mem (List.mem_append_left _ h)

/-- The rows of other nodes and those that are committed stay. -/
theorem Executes.keeps (h : table.Executes node command outcome table') {row : SharedRow}
    (hrow : row ∈ table.rows) (hkept : row.committed = true ∨ row.node ≠ some node) :
    Keeps row table' := by
  cases h with
  | beginTransaction => exact keeps_commit node hrow
  | commit | unanswered => exact keeps_commit node hrow
  | rollback | lost => exact keeps_rollback hrow hkept
  | inserted hid => exact keeps_insertRow hrow hid
  | failed => exact keeps_of_mem hrow

/-- No step takes a row from another node, or a committed row from any. -/
structure Retains (node : ℕ) (table table' : WorkerNodeTable) : Prop where
  hasRow : ∀ other id, other ≠ node → table.HasRow other id → table'.HasRow other id
  hasCommitted : ∀ other id, table.HasCommitted other id → table'.HasCommitted other id

theorem retains_of_keeps (h : ∀ row ∈ table.rows, row.committed = true ∨ row.node ≠ some node →
    Keeps row table') : Retains node table table' := by
  constructor
  · rintro other id hne ⟨row, hrow, rfl, hnode⟩
    have hother : row.node ≠ some node := by
      rw [hnode]
      exact fun heq => hne (Option.some.inj heq)
    obtain ⟨row', hrow', hid', hnode', -⟩ := h row hrow (Or.inr hother)
    exact ⟨row', hrow', hid', hnode'.trans hnode⟩
  · rintro other id ⟨row, hrow, rfl, hnode, hcommitted⟩
    obtain ⟨row', hrow', hid', hnode', hcommitted'⟩ := h row hrow (Or.inl hcommitted)
    exact ⟨row', hrow', hid', hnode'.trans hnode, hcommitted' hcommitted⟩

theorem Executes.retains (h : table.Executes node command outcome table') :
    Retains node table table' :=
  retains_of_keeps fun _ hrow hkept => h.keeps hrow hkept

/-- What the table holds for a node in this phase, with its last outcome. -/
def Reflects (table : WorkerNodeTable) (node : ℕ) : Phase → Option CommandOutcome → Prop
  | .inserting, some (.ok insertId) => ∃ id, insertId = some id ∧ table.HasRow node id
  | .committing id, none => table.HasRow node id
  | .committing id, some (.ok _) => table.HasCommitted node id
  | .resolved id, _ => table.HasCommitted node id
  | _, _ => True

variable {phase : Phase} {reply : Option CommandOutcome}

/-- The node itself goes on with its outcome. -/
theorem Reflects.next (h : table.Reflects node phase (some outcome)) :
    table.Reflects node (phase.next outcome) none := by
  cases phase with
  | inserting =>
    cases outcome with
    | error e => trivial
    | ok insertId =>
      obtain ⟨id, rfl, hrow⟩ := h
      exact hrow
  | committing id =>
    cases outcome with
    | error e => trivial
    | ok _ => exact h
  | resolved id => exact h
  | beginning | rollingBack | rejected => cases outcome <;> trivial

/-- The database answers the node. -/
theorem Reflects.answer {w : UnitOfWork} (h : table.Reflects node w.phase none)
    (hcommand : w.command = some command) (hexecutes : table.Executes node command outcome table') :
    table'.Reflects node w.phase (some outcome) := by
  obtain ⟨entity, phase⟩ := w
  cases phase with
  | beginning | rollingBack => trivial
  | resolved | rejected => cases hcommand
  | inserting =>
    cases hcommand
    cases hexecutes with
    | inserted hid => exact ⟨_, rfl, _, List.mem_append_right _ (List.mem_singleton_self _), rfl, rfl⟩
    | failed | lost => trivial
  | committing id =>
    cases hcommand
    cases hexecutes with
    | commit =>
      obtain ⟨row, hrow, hid, hnode⟩ := h
      refine ⟨_, List.mem_map_of_mem hrow, hid, hnode, ?_⟩
      cases hcommitted : row.committed <;> simp [SharedRow.isOpen, hnode, hcommitted]
    | failed | lost | unanswered => trivial

/-- Another connection, or another client, changes the table. -/
theorem Reflects.retain (h : table.Reflects other phase reply) (hretains : Retains node table table')
    (hne : other ≠ node) : table'.Reflects other phase reply := by
  cases phase with
  | inserting =>
    match reply, h with
    | none, _ | some (.error e), _ => trivial
    | some (.ok _), ⟨id, hid, hrow⟩ => exact ⟨id, hid, hretains.hasRow other id hne hrow⟩
  | committing id =>
    match reply, h with
    | none, hrow => exact hretains.hasRow other id hne hrow
    | some (.ok _), hrow => exact hretains.hasCommitted other id hrow
    | some (.error e), _ => trivial
  | resolved id => exact hretains.hasCommitted other id h
  | beginning | rollingBack | rejected => trivial

end WorkerNodeTable

end UID
