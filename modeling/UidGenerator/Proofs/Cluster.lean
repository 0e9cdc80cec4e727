import UidGenerator.Proofs.Assignment
import UidGenerator.Proofs.Workers
import UidGenerator.Proofs.UnitsOfWork

/-! Runs of a cluster. A node that runs has the key of a committed row of its own as its
worker id, so no two have the same, and the history of a node is one of its generator. -/

namespace UID

open Async Transition WorkerNodeTable

inductive Initialized (assigned : Except Throwable ℤ) (now : ℤ) : NodeSettings → UidGenerator → Prop
  | default {settings : Settings} {g : DefaultUidGenerator}
      (h : (DefaultUidGenerator.configured settings).afterPropertiesSet assigned = (.ok (), g)) :
      Initialized assigned now (.default settings) (.default g)
  | cached {settings : CachedSettings} {g : CachedUidGenerator} {fuel : ℕ}
      (h : (CachedUidGenerator.configured settings).afterPropertiesSet assigned now fuel =
        some (.ok (), g)) : Initialized assigned now (.cached settings) (.cached g)

theorem NodeSettings.initialized {settings : NodeSettings} {assigned : Except Throwable ℤ} {now : ℤ}
    {fuel : ℕ} {g : UidGenerator}
    (h : settings.afterPropertiesSet assigned now fuel = some (.ok (), g)) :
    Initialized assigned now settings g := by
  cases settings with
  | default settings =>
    obtain ⟨hout, rfl⟩ := Prod.mk.inj (Option.some.inj h)
    exact .default (Prod.ext hout rfl)
  | cached settings =>
    obtain ⟨⟨outcome, g'⟩, hinit, heq⟩ := Option.map_eq_some_iff.1 h
    obtain ⟨rfl, rfl⟩ := Prod.mk.inj heq
    exact .cached hinit

/-- No generator starts without a worker id. -/
theorem Initialized.assigned {settings : NodeSettings} {assigned : Except Throwable ℤ} {now : ℤ}
    {g : UidGenerator} (h : Initialized assigned now settings g) :
    ∃ workerId, assigned = .ok workerId := by
  cases h with
  | default hinit =>
    obtain ⟨-, workerId, rfl, -⟩ := DefaultUidGenerator.afterPropertiesSet_ok hinit
    exact ⟨workerId, rfl⟩
  | @cached settings g fuel hinit =>
    unfold CachedUidGenerator.afterPropertiesSet at hinit
    cases hsuper : (CachedUidGenerator.configured settings).toDefaultUidGenerator.afterPropertiesSet
        assigned with
    | mk outcome super =>
      cases outcome with
      | error e => simp [hsuper] at hinit
      | ok _ =>
        obtain ⟨-, workerId, rfl, -⟩ := DefaultUidGenerator.afterPropertiesSet_ok hsuper
        exact ⟨workerId, rfl⟩

variable {S : WorkerNodeServer}

/-- Conditions on how generators are started, at a clock reading, and on how they are used. -/
structure Usage where
  Starts : NodeSettings → ℤ → UidGenerator → Prop
  Uses : UidGenerator → UidGenerator.Event → UidGenerator → Prop

def Usage.any : Usage where
  Starts _ _ _ := True
  Uses := UidGenerator.Step

structure Usage.Allows (usage : Usage) (c : Cluster S) (e : ClusterEvent) (c' : Cluster S) : Prop where
  starts : ∀ node now settings assignment g, e = .settle node now (.ok ()) →
    c.nodes node = .starting settings assignment none → c'.nodes node = .running g →
    usage.Starts settings now g
  uses : ∀ node event g g', e = .generate node event → c.nodes node = .running g →
    c'.nodes node = .running g' → usage.Uses g event g'

def historyOf (node : ℕ) (events : List ClusterEvent) : List UidGenerator.Event :=
  events.filterMap (·.generates node)

/-- What is known of a node from its state. -/
inductive Accountable (usage : Usage) (events : List ClusterEvent) (table : WorkerNodeTable)
    (node : ℕ) : Node → Prop
  | down (unused : historyOf node events = []) : Accountable usage events table node .down
  | failed (unused : historyOf node events = []) : Accountable usage events table node .failed
  | starting {settings : NodeSettings} {host : Host} {w : UnitOfWork} {reply : Option CommandOutcome}
      (unused : historyOf node events = []) (launched : .launch node settings host ∈ events)
      (reflects : table.Reflects node w.phase reply) :
      Accountable usage events table node (.starting settings w.assignment reply)
  | running {settings : NodeSettings} {host : Host} {workerId now : ℤ} {g₀ g : UidGenerator}
      (launched : .launch node settings host ∈ events) (row : table.HasCommitted node workerId)
      (started : Initialized (.ok workerId) now settings g₀) (starts : usage.Starts settings now g₀)
      (run : Run usage.Uses g₀ (historyOf node events) g) :
      Accountable usage events table node (.running g)

variable {usage : Usage} {table table' : WorkerNodeTable} {events : List ClusterEvent}
  {e : ClusterEvent} {server : S.State} {c c' : Cluster S} {node other : ℕ}

theorem historyOf_snoc (node : ℕ) (events : List ClusterEvent) (e : ClusterEvent) :
    historyOf node (events ++ [e]) = historyOf node events ++ (e.generates node).toList :=
  filterMap_snoc _ _ _

/-- The node itself does nothing. -/
theorem Accountable.idle {state : Node} (h : Accountable usage events table other state)
    (hretains : Retains node table table') (hne : other ≠ node) (hidle : e.generates other = none) :
    Accountable usage (events ++ [e]) table' other state := by
  have hhistory : historyOf other (events ++ [e]) = historyOf other events := by
    rw [historyOf_snoc, hidle, Option.toList_none, List.append_nil]
  cases h with
  | down unused => exact .down (hhistory.trans unused)
  | failed unused => exact .failed (hhistory.trans unused)
  | starting unused launched reflects =>
    exact .starting (hhistory.trans unused) (List.mem_append_left _ launched)
      (reflects.retain hretains hne)
  | running launched row started starts run =>
    exact .running (List.mem_append_left _ launched) (hretains.hasCommitted _ _ row) started starts
      (hhistory ▸ run)

def Accounts (usage : Usage) (events : List ClusterEvent) (c : Cluster S) : Prop :=
  ∀ node, Accountable usage events c.table node (c.nodes node)

theorem accounts_empty : Accounts usage [] { server } := fun _ => .down rfl

/-- One node goes on, and the others are left alone. -/
theorem Accounts.setNode (h : Accounts usage events c) {state : Node}
    (hretains : Retains node c.table (S.table server))
    (hidle : ∀ other, other ≠ node → e.generates other = none)
    (hnode : Accountable usage (events ++ [e]) (S.table server) node state) :
    Accounts usage (events ++ [e]) ({ c with server }.setNode node state) := by
  intro other
  by_cases hother : other = node
  · subst hother
    rw [Cluster.setNode_self]
    exact hnode
  · rw [Cluster.setNode_of_ne _ hother]
    exact (h other).idle hretains hother (hidle other hother)

theorem retains_refl (node : ℕ) (table : WorkerNodeTable) : Retains node table table :=
  ⟨fun _ _ _ h => h, fun _ _ h => h⟩

theorem Accounts.step (h : Accounts usage events c) (hstep : ClusterStep c e c')
    (hallows : usage.Allows c e c') : Accounts usage (events ++ [e]) c' := by
  have hunused {node : ℕ} (hnone : e.generates node = none) (hhistory : historyOf node events = []) :
      historyOf node (events ++ [e]) = [] := by
    rw [historyOf_snoc, hhistory, hnone]
    rfl
  cases hstep with
  | @launch node settings host down built =>
    refine h.setNode (retains_refl node c.table) (fun _ _ => rfl) ?_
    cases down ▸ h node with
    | down unused =>
      rw [assignment_start]
      exact .starting (hunused rfl unused) (List.mem_append_right _ (List.mem_singleton_self _)) trivial
  | @refuse node settings host e down built =>
    refine h.setNode (retains_refl node c.table) (fun _ _ => rfl) ?_
    cases down ▸ h node with
    | down unused => exact .failed (hunused rfl unused)
  | @execute node settings assignment command outcome server waiting awaited hexecute =>
    have hexecutes := S.executes hexecute
    refine h.setNode hexecutes.retains (fun _ _ => rfl) ?_
    have hnode := h node
    rw [waiting] at hnode
    cases hnode with
    | @starting _ _ w _ unused launched reflects =>
      rw [assignment_simulates.command] at awaited
      exact .starting (hunused rfl unused) (List.mem_append_left _ launched)
        (reflects.answer awaited hexecutes)
  | @resume node settings assignment outcome replied =>
    refine h.setNode (retains_refl node c.table) (fun _ _ => rfl) ?_
    have hnode := h node
    rw [replied] at hnode
    cases hnode with
    | @starting _ _ w _ unused launched reflects =>
      rw [assignment_simulates.next]
      exact .starting (hunused rfl unused) (List.mem_append_left _ launched) reflects.next
  | @resolve node settings assigned entity now fuel g settled hinit =>
    refine h.setNode (retains_refl node c.table) (fun _ _ => rfl) ?_
    have hnode := h node
    rw [settled] at hnode
    generalize hassignment : (Program.done (assigned, entity) : Assignment) = assignment at hnode
    cases hnode with
    | @starting _ host w _ unused launched reflects =>
      have hinitialized := NodeSettings.initialized hinit
      obtain ⟨workerId, rfl⟩ := hinitialized.assigned
      rw [UnitOfWork.phase_of_assigned hassignment.symm] at reflects
      have hrun : Run usage.Uses g (historyOf node (events ++ [.settle node now (.ok ())])) g := by
        rw [hunused rfl unused]
        exact .nil
      refine .running (List.mem_append_left _ launched) reflects hinitialized ?_ hrun
      exact hallows.starts node now settings _ g rfl settled (by simp)
  | @reject node settings assigned entity now fuel g e settled hinit =>
    refine h.setNode (retains_refl node c.table) (fun _ _ => rfl) ?_
    have hnode := h node
    rw [settled] at hnode
    generalize (Program.done (assigned, entity) : Assignment) = assignment at hnode
    cases hnode with
    | starting unused launched reflects => exact .failed (hunused rfl unused)
  | @generate node g g' event running hstep =>
    refine h.setNode (retains_refl node c.table) (fun other hother => ?_) ?_
    · simp [ClusterEvent.generates, hother.symm]
    · cases running ▸ h node with
      | running launched row started starts run =>
        refine .running (List.mem_append_left _ launched) row started starts ?_
        rw [historyOf_snoc, ClusterEvent.generates, if_pos rfl]
        exact run.snoc (hallows.uses node event g g' rfl running (by simp))
  | @register row server hregister =>
    intro node
    obtain ⟨-, hid, htable⟩ := S.registers hregister
    have hretains : Retains (node + 1) c.table (S.table server) := by
      rw [htable]
      exact retains_of_keeps fun _ hrow _ => keeps_insertRow hrow hid
    exact (h node).idle hretains (by omega) rfl

def Usage.Step (usage : Usage) (c : Cluster S) (e : ClusterEvent) (c' : Cluster S) : Prop :=
  ClusterStep c e c' ∧ usage.Allows c e c'

theorem accounts_run (hrun : Run usage.Step { server } events c) : Accounts usage events c :=
  hrun.invariant (Accounts usage) accounts_empty fun _ _ _ _ _ h hs => h.step hs.1 hs.2

theorem Usage.Step.quiet (h : ClusterStep c e c') (hsettle : ∀ node now, e ≠ .settle node now (.ok ()))
    (hgenerate : ∀ node event, e ≠ .generate node event) : usage.Step c e c' :=
  ⟨h, fun node now _ _ _ he => (hsettle node now he).elim, fun node event _ _ he =>
    (hgenerate node event he).elim⟩

theorem Usage.Step.resolve {settings : NodeSettings} {assigned : Except Throwable ℤ}
    {entity : WorkerNodeEntity} {now : ℤ} {fuel : ℕ} {g : UidGenerator}
    (settled : c.nodes node = .starting settings (.done (assigned, entity)) none)
    (h : settings.afterPropertiesSet assigned now fuel = some (.ok (), g))
    (hstarts : usage.Starts settings now g) :
    usage.Step c (.settle node now (.ok ())) (c.setNode node (.running g)) := by
  refine ⟨.resolve settled h, ?_, by simp⟩
  rintro _ _ settings' assignment g' ⟨⟩ hbefore hafter
  rw [settled, Node.starting.injEq] at hbefore
  rw [Cluster.setNode_self, Node.running.injEq] at hafter
  exact hbefore.1 ▸ hafter ▸ hstarts

theorem Usage.Step.generate {g g' : UidGenerator} {event : UidGenerator.Event}
    (running : c.nodes node = .running g) (h : g.Step event g') (huses : usage.Uses g event g') :
    usage.Step c (.generate node event) (c.setNode node (.running g')) := by
  refine ⟨.generate running h, by simp, ?_⟩
  rintro _ _ g₁ g₂ ⟨⟩ hbefore hafter
  rw [running, Node.running.injEq] at hbefore
  rw [Cluster.setNode_self, Node.running.injEq] at hafter
  exact hbefore ▸ hafter ▸ huses

def Cluster.waiting (c : Cluster S) (server : S.State) (node : ℕ) (settings : NodeSettings)
    (w : UnitOfWork) : Cluster S :=
  { c with server }.setNode node (.starting settings w.assignment none)

def Cluster.answered (c : Cluster S) (server : S.State) (node : ℕ) (settings : NodeSettings)
    (w : UnitOfWork) (outcome : CommandOutcome) : Cluster S :=
  { c with server }.setNode node (.starting settings w.assignment (some outcome))

/-- It has the command executed and goes on. -/
theorem Usage.run_command {settings : NodeSettings} {w : UnitOfWork} {command : Command}
    {outcome : CommandOutcome} {server' : S.State} (hcommand : w.command = some command)
    (h : S.execute server node command outcome server') :
    Run usage.Step (c.waiting server node settings w)
      [.execute node command outcome, .resume node]
      (c.waiting server' node settings (UnitOfWork.machine.next w outcome)) := by
  have hexecute : ClusterStep (c.waiting server node settings w) (.execute node command outcome)
      (c.answered server' node settings w outcome) := by
    have hstep := ClusterStep.execute (c := c.waiting server node settings w)
      (Cluster.setNode_self _ _ _) ((assignment_simulates.command w).trans hcommand) h
    rwa [Cluster.waiting, Cluster.setNode_server] at hstep
  have hresume : ClusterStep (c.answered server' node settings w outcome) (.resume node)
      (c.waiting server' node settings (UnitOfWork.machine.next w outcome)) := by
    have hstep := ClusterStep.resume (c := c.answered server' node settings w outcome)
      (Cluster.setNode_self _ _ _)
    rwa [assignment_simulates.next, Cluster.answered, Cluster.setNode_setNode] at hstep
  exact .cons (.quiet hexecute (by simp) (by simp))
    (.cons (.quiet hresume (by simp) (by simp)) .nil)

theorem WorkerNodeTable.Generates.beginTransaction {id : ℤ} (h : table.Generates id) :
    (table.beginTransaction node).Generates id := by
  rw [generates_iff] at h ⊢
  rwa [beginTransaction_keys]

/-- The start of a node that no other event interrupts. -/
def startup (node : ℕ) (settings : NodeSettings) (host : Host) (id now : ℤ) : List ClusterEvent :=
  .launch node settings host :: [.execute node .beginTransaction (.ok none), .resume node] ++
    [.execute node (insertNode host.buildWorkerNode) (.ok (some id)), .resume node] ++
    [.execute node .commit (.ok none), .resume node] ++ [.settle node now (.ok ())]

def plainTable : WorkerNodeServer where
  State := WorkerNodeTable
  table t := t
  execute := WorkerNodeTable.Executes
  register := WorkerNodeTable.Registers
  executes h := h
  registers h := h

/-- A node that is down can be started with any key that the table generates. -/
theorem startup_run (usage : Usage) {c : Cluster plainTable} (host : Host) {settings : NodeSettings}
    {id now : ℤ} {fuel : ℕ} {g : UidGenerator} (down : c.nodes node = .down) (built : settings.buildAllocator = .ok ())
    (hid : c.table.Generates id)
    (hinit : settings.afterPropertiesSet (.ok id) now fuel = some (.ok (), g))
    (hstarts : usage.Starts settings now g) :
    ∃ c', Run usage.Step c (startup node settings host id now) c' ∧ c'.nodes node = .running g ∧
      (∀ other, other ≠ node → c'.nodes other = c.nodes other) ∧
      c'.table.rows.map SharedRow.id = c.table.rows.map SharedRow.id ++ [id] := by
  let entity := host.buildWorkerNode
  let begun := c.table.beginTransaction node
  let inserted := begun.insert node (entity.parameters entity.launchDate) id hid.beginTransaction
  have hlaunch : usage.Step c (.launch node settings host)
      (c.waiting c.table node settings ⟨entity, .beginning⟩) := by
    refine .quiet ?_ (by simp) (by simp)
    have hstart : ClusterStep c (.launch node settings host) (c.setNode node (.starting settings _ none)) :=
      .launch down built
    rwa [assignment_start] at hstart
  have hbegin : Run usage.Step (c.waiting c.table node settings ⟨entity, .beginning⟩)
      [.execute node .beginTransaction (.ok none), .resume node]
      (c.waiting begun node settings ⟨entity, .inserting⟩) :=
    Usage.run_command rfl .beginTransaction
  have hinsert : Run usage.Step (c.waiting begun node settings ⟨entity, .inserting⟩)
      [.execute node (insertNode entity) (.ok (some id)), .resume node]
      (c.waiting inserted node settings ⟨entity, .committing id⟩) :=
    Usage.run_command rfl (.inserted hid.beginTransaction)
  have hcommit : Run usage.Step (c.waiting inserted node settings ⟨entity, .committing id⟩)
      [.execute node .commit (.ok none), .resume node]
      (c.waiting (inserted.commit node) node settings ⟨entity, .resolved id⟩) :=
    Usage.run_command rfl .commit
  have hsettle : usage.Step (c.waiting (inserted.commit node) node settings ⟨entity, .resolved id⟩)
      (.settle node now (.ok ())) _ :=
    .resolve (Cluster.setNode_self _ _ _) hinit hstarts
  refine ⟨_, run_append.2 ⟨_, run_append.2 ⟨_, run_append.2 ⟨_, .cons hlaunch hbegin, hinsert⟩,
    hcommit⟩, run_singleton.2 hsettle⟩, Cluster.setNode_self _ _ _, fun other hother => ?_, ?_⟩
  · rw [Cluster.setNode_of_ne _ hother]
    exact Cluster.setNode_of_ne _ hother _
  · change (inserted.commit node).rows.map SharedRow.id = _
    rw [commit_keys, insert_keys, beginTransaction_keys]

theorem allows_any (h : ClusterStep c e c') : Usage.any.Allows c e c' := by
  refine ⟨fun _ _ _ _ _ _ _ _ => trivial, ?_⟩
  rintro node event g g' rfl hbefore hafter
  cases h with
  | generate running hstep =>
    rw [running, Node.running.injEq] at hbefore
    subst hbefore
    rw [Cluster.setNode_self, Node.running.injEq] at hafter
    exact hafter ▸ hstep

theorem accounts_any (hrun : Clusters server events c) : Accounts .any events c :=
  accounts_run (hrun.mono fun _ _ _ hs => ⟨hs, allows_any hs⟩)

section
variable {settings : NodeSettings} {workerId now : ℤ} {g₀ g : UidGenerator} {L : Layout}
  {history : List UidGenerator.Event}

theorem Initialized.layout (h : Initialized (.ok workerId) now settings g) :
    ∃ L : Layout, settings.toSettings.timeBits = L.t ∧ settings.toSettings.workerBits = L.w ∧
      settings.toSettings.seqBits = L.s ∧ workerId < 2 ^ L.w := by
  cases h with
  | default hinit =>
    obtain ⟨L, hready⟩ := DefaultUidGenerator.ready_of_init hinit
    exact ⟨L, hready.timeBits, hready.workerBits, hready.seqBits, hready.workerId_lt⟩
  | cached hinit =>
    obtain ⟨L, filled, hready⟩ := CachedUidGenerator.ready_of_init hinit
    exact ⟨L, hready.timeBits, hready.workerBits, hready.seqBits, hready.workerId_lt⟩

/-- A history of a default generator is one of calls. -/
theorem run_default {uses : UidGenerator → UidGenerator.Event → UidGenerator → Prop}
    (step : DefaultUidGenerator → DefaultUidGenerator.Call → DefaultUidGenerator → Prop)
    (huses : ∀ g e g', uses g e g' → g.Step e g')
    (hstep : ∀ g call g', uses (.default g) (.default call) (.default g') → step g call g')
    {g₀ : DefaultUidGenerator} (hrun : Run uses (.default g₀) history g) :
    ∃ calls g', history = calls.map .default ∧ g = .default g' ∧ Run step g₀ calls g' := by
  refine hrun.of_embedded (f := UidGenerator.default) fun mid e mid' h => ?_
  cases huses _ _ _ h with
  | default _ => exact ⟨_, _, rfl, rfl, hstep _ _ _ h⟩

theorem run_cached {uses : UidGenerator → UidGenerator.Event → UidGenerator → Prop}
    (step : CachedUidGenerator → CachedUidGenerator.Event → CachedUidGenerator → Prop)
    (huses : ∀ g e g', uses g e g' → g.Step e g')
    (hstep : ∀ g event g', uses (.cached g) (.cached event) (.cached g') → step g event g')
    {g₀ : CachedUidGenerator} (hrun : Run uses (.cached g₀) history g) :
    ∃ events g', history = events.map .cached ∧ g = .cached g' ∧ Run step g₀ events g' := by
  refine hrun.of_embedded (f := UidGenerator.cached) fun mid e mid' h => ?_
  cases huses _ _ _ h with
  | cached _ => exact ⟨_, _, rfl, rfl, hstep _ _ _ h⟩

theorem uids_default (calls : List DefaultUidGenerator.Call) :
    (calls.map UidGenerator.Event.default).filterMap (·.uid) = DefaultUidGenerator.returned calls :=
  List.filterMap_map

theorem uids_cached (events : List CachedUidGenerator.Event) :
    (events.map UidGenerator.Event.cached).filterMap (·.uid) =
      CachedUidGenerator.returnedUids events :=
  List.filterMap_map

/-- What a generator has returned in its history. -/
theorem Initialized.returnedBy (h : Initialized (.ok workerId) now settings g₀)
    (hrun : Run UidGenerator.Step g₀ history g) :
    ∀ uid ∈ history.filterMap (·.uid), ReturnedBy settings.toSettings.timeBits
      settings.toSettings.workerBits settings.toSettings.seqBits workerId uid := by
  intro uid huid
  cases h with
  | @default settings g₀ hinit =>
    obtain ⟨calls, g', rfl, rfl, hcalls⟩ := run_default DefaultUidGenerator.CallStep
      (fun _ _ _ h => h) (fun _ _ _ h => by cases h; assumption) hrun
    rw [uids_default] at huid
    exact .default settings g₀ g' calls rfl rfl rfl hinit hcalls huid
  | @cached settings g₀ fuel hinit =>
    obtain ⟨events, g', rfl, rfl, hevents⟩ := run_cached CachedUidGenerator.Step
      (fun _ _ _ h => h) (fun _ _ _ h => by cases h; assumption) hrun
    rw [uids_cached] at huid
    exact .cached settings now fuel (.ok ()) g₀ g' events rfl rfl rfl hinit hevents huid

theorem Initialized.workerId_eq (h : Initialized (.ok workerId) now settings g₀)
    (hid : 0 ≤ workerId) (hrun : Run UidGenerator.Step g₀ history g) : g.workerId = workerId := by
  cases h with
  | default hinit =>
    obtain ⟨calls, g', -, rfl, hcalls⟩ := run_default DefaultUidGenerator.CallStep
      (fun _ _ _ h => h) (fun _ _ _ h => by cases h; assumption) hrun
    obtain ⟨L, hready⟩ := DefaultUidGenerator.ready_of_init hinit
    have hframed := DefaultUidGenerator.framed_run hready.bitsAllocator hready.sequence hcalls
    rw [UidGenerator.workerId, hframed.frame]
    exact hready.workerId
  | cached hinit =>
    obtain ⟨events, g', -, rfl, hevents⟩ := run_cached CachedUidGenerator.Step
      (fun _ _ _ h => h) (fun _ _ _ h => by cases h; assumption) hrun
    obtain ⟨L, filled, hready⟩ := CachedUidGenerator.ready_of_init hinit
    have hworker := CachedUidGenerator.ofWorker_init hready.timeBits hready.workerBits hready.seqBits hid
      hready.workerId_lt hinit
    refine (hevents.invariant (fun _ g => CachedUidGenerator.OfWorker L workerId g) hworker ?_).workerId_eq
    exact fun _ _ _ _ _ h hstep => (h.step hid hready.workerId_lt hstep).1

end

/-- A node that runs has a worker id of its own, the key of a row that it has committed,
and every UID that it has returned carries that id. -/
theorem Accountable.worker {g : UidGenerator}
    (h : Accountable .any events table node (.running g)) :
    table.HasCommitted node g.workerId ∧
      ∃ (settings : NodeSettings) (host : Host), .launch node settings host ∈ events ∧
        ∃ L : Layout, settings.toSettings.timeBits = L.t ∧ settings.toSettings.workerBits = L.w ∧
        settings.toSettings.seqBits = L.s ∧ g.workerId < 2 ^ L.w ∧
        ∀ uid ∈ uidsOf node events, (L.allocator.parse uid).workerId = g.workerId := by
  cases h with
  | @running settings host workerId now g₀ g launched row started starts run =>
    have hpos := row.hasRow.pos
    rw [started.workerId_eq hpos.le run]
    obtain ⟨L, ht, hw, hs, hlt⟩ := started.layout
    refine ⟨row, settings, host, launched, L, ht, hw, hs, hlt, fun uid huid => ?_⟩
    have hreturned := started.returnedBy run uid huid
    rw [ht, hw, hs] at hreturned
    exact hreturned.workerId hpos.le hlt

end UID
