import UidGenerator.Proofs.Cluster
import UidGenerator.Proofs.UnitsOfWork

/-! The UIDs that the nodes of a cluster return. Those of different nodes carry different
worker ids, and as long as no clock leaves the timestamp field of its generator, those of
one node are different as well. -/

namespace UID

open Transition

variable {S : WorkerNodeServer} {server : S.State} {table : WorkerNodeTable}
  {events : List ClusterEvent} {c : Cluster S} {node : ℕ}

/-- A node that does not run has returned no UID. -/
theorem Accountable.uidsOf_eq {usage : Usage} {state : Node}
    (h : Accountable usage events table node state) (hstate : ∀ g, state ≠ .running g) :
    uidsOf node events = [] := by
  cases h with
  | down unused | failed unused | starting unused =>
    rw [uidsOf, ← historyOf, unused, List.filterMap_nil]
  | running => exact (hstate _ rfl).elim

/-- Nodes with the same widths have one layout. -/
theorem SameWidths.layout_eq {t w s : ℤ} (hwidths : SameWidths t w s events) {node₁ node₂ : ℕ}
    {settings₁ settings₂ : NodeSettings} {host₁ host₂ : Host} {L₁ L₂ : Layout}
    (launched₁ : .launch node₁ settings₁ host₁ ∈ events)
    (h₁ : settings₁.toSettings.timeBits = L₁.t ∧ settings₁.toSettings.workerBits = L₁.w ∧
      settings₁.toSettings.seqBits = L₁.s)
    (launched₂ : .launch node₂ settings₂ host₂ ∈ events)
    (h₂ : settings₂.toSettings.timeBits = L₂.t ∧ settings₂.toSettings.workerBits = L₂.w ∧
      settings₂.toSettings.seqBits = L₂.s) : L₁ = L₂ := by
  obtain ⟨rfl, rfl, rfl⟩ := hwidths node₁ settings₁ host₁ launched₁
  obtain ⟨ht, hw, hs⟩ := hwidths node₂ settings₂ host₂ launched₂
  apply Layout.eq_of_widths
  · rw [← h₁.1, ← h₂.1, ht]
  · rw [← h₁.2.1, ← h₂.2.1, hw]
  · rw [← h₁.2.2, ← h₂.2.2, hs]

/-- The timestamp field of the generator holds the second. -/
def DefaultUidGenerator.HasSecond (g : DefaultUidGenerator) (second : ℤ) : Prop :=
  ∀ A ∈ g.bitsAllocator, g.epochSeconds ≤ second ∧ second ≤ g.epochSeconds + A.maxDeltaSeconds

def CachedUidGenerator.BorrowsOnTime (g : CachedUidGenerator) : Prop :=
  ∀ p ∈ g.padded, g.HasSecond p.executor.lastSecond

/-- Clocks never read a second outside the timestamp field, and cached generators, which
keep the default handler for an empty ring, borrow none. -/
def timely : Usage where
  Starts settings now g :=
    match settings, g with
    | .cached settings, .cached g => settings.rejectedTakeBufferHandler = none ∧ IsTime now ∧
        settings.epochSeconds ≤ toSeconds now ∧ g.BorrowsOnTime
    | _, _ => True
  Uses g event g' := g.Step event g' ∧
    match event, g' with
    | .default call, .default g' => ∀ second ∈ call.seconds, g'.HasSecond second
    | .cached _, .cached g' => g'.BorrowsOnTime
    | _, _ => True

def DefaultUidGenerator.TimelyStep (g : DefaultUidGenerator) (call : Call) (g' : DefaultUidGenerator) :
    Prop :=
  CallStep g call g' ∧ ∀ second ∈ call.seconds, g'.HasSecond second

section
variable {settings : Settings} {workerId : ℤ} {L : Layout} {g₀ g : DefaultUidGenerator}
  {calls : List DefaultUidGenerator.Call}

theorem DefaultUidGenerator.calls_of_timely (hrun : Run TimelyStep g₀ calls g) : Calls g₀ calls g :=
  hrun.mono fun _ _ _ h => h.1

/-- The field is that of the generator that the run started with. -/
theorem DefaultUidGenerator.Ready.seconds_mem (hready : Ready settings workerId L g₀)
    (hrun : Run TimelyStep g₀ calls g) : ∀ call ∈ calls, ∀ second ∈ call.seconds,
      g₀.epochSeconds ≤ second ∧ second ≤ g₀.epochSeconds + L.allocator.maxDeltaSeconds := by
  have hA := hready.bitsAllocator
  refine hrun.invariant (fun calls _ => ∀ call ∈ calls, ∀ second ∈ call.seconds,
    g₀.epochSeconds ≤ second ∧ second ≤ g₀.epochSeconds + L.allocator.maxDeltaSeconds) (by simp) ?_
  intro calls mid call mid' hpre h ⟨hstep, hseconds⟩ call' hcall'
  rcases List.mem_append.1 hcall' with hcall' | hcall'
  · exact h call' hcall'
  · rw [List.mem_singleton.1 hcall']
    have hframed := framed_run hA hready.sequence ((calls_of_timely hpre).snoc hstep)
    intro second hsecond
    have hhas := hseconds second hsecond L.allocator (hframed.bitsAllocator hA)
    rwa [hframed.frame] at hhas

/-- No call waits past the range. -/
theorem DefaultUidGenerator.Ready.notWaiting (hready : Ready settings workerId L g₀)
    (hrun : Run TimelyStep g₀ calls g) {pre : List Call} {call : Call} {mid : DefaultUidGenerator}
    (hcall : call ∈ calls) (hpre : Calls g₀ pre mid) :
    ¬mid.WaitsPastRange L.allocator call.readings := by
  rintro ⟨now, rest, hreadings, -, -, r, hr, hpast⟩
  have hsecond := (hready.seconds_mem hrun call hcall (toSeconds r)
    (List.mem_map_of_mem (by rw [hreadings]; exact List.mem_cons_of_mem _ hr))).2
  have hframed := framed_run hready.bitsAllocator hready.sequence hpre
  rw [PastRange, hframed.frame] at hpast
  simp only at hpast
  omega

theorem DefaultUidGenerator.Ready.issued (hready : Ready settings workerId L g₀)
    (hrun : Run TimelyStep g₀ calls g) : ∃ stamps, Issued L g₀ calls g stamps := by
  obtain ⟨stamps, hissued, -⟩ := issued_run hready.bitsAllocator hready.sequence hready.lastSecond
    (calls_of_timely hrun)
    (fun call hcall second hsecond => (hready.seconds_mem hrun call hcall second hsecond).1)
    fun pre call post mid mid' heq hpre _ => hready.notWaiting hrun (by rw [heq]; simp) hpre
  exact ⟨stamps, hissued⟩

theorem DefaultUidGenerator.returned_nodup (hid : 0 ≤ workerId)
    (hinit : (configured settings).afterPropertiesSet (.ok workerId) = (.ok (), g₀))
    (hrun : Run TimelyStep g₀ calls g) : (returned calls).Nodup := by
  obtain ⟨L, hready⟩ := ready_of_init hinit
  obtain ⟨stamps, hissued⟩ := hready.issued hrun
  exact (hissued.increasing (hready.workerId ▸ hid) (hready.workerId ▸ hready.workerId_lt)).imp
    fun hlt => hlt.ne

end

theorem CachedUidGenerator.returnedUids_nodup {settings : CachedSettings} {workerId now : ℤ} {fuel : ℕ}
    {g₀ g : CachedUidGenerator} {events : List Event} (hid : 0 ≤ workerId)
    (hreject : settings.rejectedTakeBufferHandler = none) (hnow : IsTime now)
    (hepoch : settings.epochSeconds ≤ toSeconds now) (hfirst : g₀.BorrowsOnTime)
    (hinit : (configured settings).afterPropertiesSet (.ok workerId) now fuel = some (.ok (), g₀))
    (hrun : Run (Within Step BorrowsOnTime) g₀ events g) : (returnedUids events).Nodup := by
  obtain ⟨L, filled, hready⟩ := ready_of_init hinit
  have hA := hready.bitsAllocator
  have hmax : L.allocator.maxDeltaSeconds = 2 ^ L.t - 1 := rfl
  obtain ⟨p₀, -, hp₀⟩ := hready.start
  have hborrows {p : PaddedRing} (h : BorrowsOnTime { g₀ with padded := some p }) :
      BorrowsAtMost (toSeconds now) (2 ^ L.t) { g₀ with padded := some p } := by
    intro p' hp'
    obtain rfl := Option.some.inj hp'
    have hsecond := (h p rfl L.allocator hA).2
    have heq := hready.epochSeconds
    simp only at hsecond
    omega
  have hframe : g₀ = { g₀ with padded := some p₀ } := by rw [← hp₀]
  -- only the ring changes
  obtain ⟨hruns, -⟩ := hrun.invariant (fun events g =>
    Run (Within Step (BorrowsAtMost (toSeconds now) (2 ^ L.t))) g₀ events g ∧
      ∃ p, g = { g₀ with padded := some p }) ⟨.nil, p₀, hframe⟩ (by
    rintro events mid e mid' - ⟨hrun, p, rfl⟩ ⟨hstep, htime⟩
    obtain ⟨-, p', -, rfl, -⟩ := step_padded (p := p) rfl hstep
    exact ⟨hrun.snoc ⟨hstep, hborrows htime⟩, p', rfl⟩)
  have hbits := L.bits_sum
  obtain ⟨bufferSize, k, p, hafter, hk, -⟩ := hready.after_run hid hreject hnow
    (show (2 : ℤ) ^ L.t ≤ 2 ^ 62 from pow_le_pow_right₀ (by norm_num) (by
      have := L.w_pos
      omega)) (hframe ▸ hborrows (hframe ▸ hfirst)) hruns
  have hk' : k ≤ 2 ^ (L.t + 1) := by
    have hle : k ≤ 2 ^ L.t := by exact_mod_cast hk
    exact hle.trans (Nat.pow_le_pow_right two_pos (Nat.le_succ _))
  exact hafter.returned_sublist.nodup (nodup_borrowed hA (hready.assigned ▸ hid)
    (hready.assigned ▸ hready.workerId_lt) _ hk')

/-- On time, no generator returns a UID twice. -/
theorem Initialized.nodup {settings : NodeSettings} {workerId now : ℤ} {g₀ g : UidGenerator}
    {history : List UidGenerator.Event} (h : Initialized (.ok workerId) now settings g₀)
    (hid : 0 ≤ workerId) (hstarts : timely.Starts settings now g₀)
    (hrun : Run timely.Uses g₀ history g) : (history.filterMap (·.uid)).Nodup := by
  cases h with
  | default hinit =>
    obtain ⟨calls, g', rfl, rfl, hcalls⟩ := run_default DefaultUidGenerator.TimelyStep
      (fun _ _ _ h => h.1) (fun _ _ _ h => ⟨by cases h.1; assumption, h.2⟩) hrun
    rw [uids_default]
    exact DefaultUidGenerator.returned_nodup hid hinit hcalls
  | cached hinit =>
    obtain ⟨events, g', rfl, rfl, hevents⟩ := run_cached
      (Within CachedUidGenerator.Step CachedUidGenerator.BorrowsOnTime)
      (fun _ _ _ h => h.1) (fun _ _ _ h => ⟨by cases h.1; assumption, h.2⟩) hrun
    obtain ⟨hreject, hnow, hepoch, hfirst⟩ := hstarts
    rw [uids_cached]
    exact CachedUidGenerator.returnedUids_nodup hid hreject hnow hepoch hfirst hinit hevents

theorem uidsOf_eq (node : ℕ) (events : List ClusterEvent) :
    (events.filterMap (·.uid)).filterMap (fun x => if x.1 = node then some x.2 else none) =
      uidsOf node events := by
  rw [uidsOf, List.filterMap_filterMap, List.filterMap_filterMap]
  congr 1
  funext e
  cases e with
  | generate n event =>
    by_cases hn : n = node
    · cases huid : event.uid <;> simp [ClusterEvent.uid, ClusterEvent.generates, hn, huid]
    · cases huid : event.uid <;> simp [ClusterEvent.uid, ClusterEvent.generates, hn, huid]
  | _ => rfl

def firstHost : Host where
  docker := { dockerHost := "10.0.0.1", dockerPort := "8080", isDocker := true }
  localAddress := "127.0.0.1"
  launchDate := 0
  now := 0
  random := 0

def secondHost : Host where
  docker := { dockerHost := "10.0.0.2", dockerPort := "8080", isDocker := true }
  localAddress := "127.0.0.1"
  launchDate := 0
  now := 0
  random := 0

def emptyCluster : Cluster plainTable := { server := ({} : WorkerNodeTable) }

theorem emptyCluster_generates : emptyCluster.table.Generates 1 :=
  ⟨by decide, by decide, fun _ h => absurd h List.not_mem_nil⟩

def twoNodes : List ClusterEvent :=
  startup 0 (.cached CachedUidGenerator.fourSlots) firstHost 1 0 ++
    startup 1 (.default CachedUidGenerator.fourSlots.toSettings) secondHost 2 0 ++
    [.generate 0 (.cached (.getUID (.ok 10))), .generate 1 (.default ⟨[1000], .ok 12⟩)]

theorem twoNodes_run : ∃ (c : Cluster plainTable) (g₀ g₁ : UidGenerator),
    Run timely.Step emptyCluster twoNodes c ∧ c.nodes 0 = .running g₀ ∧ c.nodes 1 = .running g₁ := by
  let cached := CachedUidGenerator.initialized CachedUidGenerator.fourSlots
  let default := ((DefaultUidGenerator.configured
    CachedUidGenerator.fourSlots.toSettings).afterPropertiesSet (.ok 2)).2
  have hcached : (NodeSettings.cached CachedUidGenerator.fourSlots).afterPropertiesSet (.ok 1) 0 3 =
      some (.ok (), .cached cached) := by
    rw [NodeSettings.afterPropertiesSet, CachedUidGenerator.init_fourSlots]
    rfl
  have hdefault : (NodeSettings.default CachedUidGenerator.fourSlots.toSettings).afterPropertiesSet
      (.ok 2) 0 0 = some (.ok (), .default default) := rfl
  have hborrows (s : CachedUidGenerator) (hsecond : s.padded.map (·.executor.lastSecond) = some 3)
      (hmax : s.bitsAllocator.map (·.maxDeltaSeconds) = some (2 ^ 60 - 1))
      (hepoch : s.epochSeconds = 0) : s.BorrowsOnTime := by
    intro p hp A hA
    rw [Option.mem_def.1 hp, Option.map_some, Option.some.injEq] at hsecond
    rw [Option.mem_def.1 hA, Option.map_some, Option.some.injEq] at hmax
    rw [hsecond, hmax, hepoch]
    decide
  have htake : CachedUidGenerator.Step cached (.getUID (.ok 10)) _ :=
    .getUID (show cached.getUID 0 = _ from eq_some_of_map_fst cached (by decide +kernel))
  obtain ⟨last, hcall, hepoch, hmax⟩ : ∃ last : DefaultUidGenerator,
      DefaultUidGenerator.CallStep default ⟨[1000], .ok 12⟩ last ∧ last.epochSeconds = 0 ∧
        last.bitsAllocator.map (·.maxDeltaSeconds) = some (2 ^ 60 - 1) := by
    have hout : (default.getUID [1000]).map (fun x => (x.1, x.2.2, x.2.1.epochSeconds,
        x.2.1.bitsAllocator.map (·.maxDeltaSeconds))) = some (.ok 12, [], 0, some (2 ^ 60 - 1)) := by
      decide +kernel
    obtain ⟨⟨out, last, rest⟩, hget, heq⟩ := Option.map_eq_some_iff.1 hout
    simp only [Prod.mk.injEq] at heq
    obtain ⟨rfl, rfl, hepoch, hmax⟩ := heq
    exact ⟨last, hget, hepoch, hmax⟩
  have hdown : emptyCluster.nodes 0 = .down := rfl
  have hstarts : timely.Starts (.cached CachedUidGenerator.fourSlots) 0 (.cached cached) :=
    ⟨rfl, by unfold IsTime; decide, by decide,
      hborrows cached (by decide +kernel) (by decide +kernel) rfl⟩
  obtain ⟨c₁, hrun₁, hnode₁, hother₁, hkeys₁⟩ :=
    startup_run timely firstHost hdown rfl emptyCluster_generates hcached hstarts
  have hid : c₁.table.Generates 2 := by
    rw [WorkerNodeTable.generates_iff, hkeys₁]
    decide
  obtain ⟨c₂, hrun₂, hnode₂, hother₂, -⟩ := startup_run timely secondHost (hother₁ 1 (by decide))
    rfl hid hdefault trivial
  refine ⟨_, _, _, run_append.2 ⟨c₂, run_append.2 ⟨c₁, hrun₁, hrun₂⟩,
    .cons (.generate ((hother₂ 0 (by decide)).trans hnode₁) (.cached htake) ⟨.cached htake, ?_⟩)
      (.cons (.generate ((Cluster.setNode_of_ne _ (by decide) _).trans hnode₂) (.default hcall)
        ⟨.default hcall, ?_⟩) .nil)⟩, (Cluster.setNode_of_ne _ (by decide) _).trans
          (Cluster.setNode_self _ _ _), Cluster.setNode_self _ _ _⟩
  · exact hborrows _ (by decide +kernel) (by decide +kernel) (by decide +kernel)
  · intro second hsecond A hA
    rw [Option.mem_def.1 hA, Option.map_some, Option.some.injEq] at hmax
    rw [hmax, hepoch, List.mem_singleton.1 hsecond]
    decide

theorem twoNodes_sameWidths : SameWidths 60 2 1 twoNodes := by
  intro node settings host h
  simp only [twoNodes, startup, List.mem_append, List.mem_cons, reduceCtorEq, List.not_mem_nil,
    ClusterEvent.launch.injEq, or_false] at h
  rcases h with ⟨-, rfl, -⟩ | ⟨-, rfl, -⟩ <;> exact ⟨rfl, rfl, rfl⟩

/-- Nodes that run have different worker ids, each within the worker field. -/
theorem running_workers_differ (hrun : Clusters server events c) :
    (∀ node g, c.nodes node = .running g →
      c.table.HasCommitted node g.workerId ∧ 0 < g.workerId ∧
        ∃ (settings : NodeSettings) (host : Host) (A : BitsAllocator),
          .launch node settings host ∈ events ∧
            BitsAllocator.new settings.toSettings.timeBits settings.toSettings.workerBits
              settings.toSettings.seqBits = .ok A ∧ g.workerId ≤ A.maxWorkerId) ∧
    ∀ node₁ node₂ g₁ g₂, node₁ ≠ node₂ → c.nodes node₁ = .running g₁ →
      c.nodes node₂ = .running g₂ → g₁.workerId ≠ g₂.workerId := by
  have haccounts := accounts_any hrun
  have hworker {node : ℕ} {g : UidGenerator} (h : c.nodes node = .running g) :=
    (h ▸ haccounts node).worker
  refine ⟨fun node g h => ?_, fun node₁ node₂ g₁ g₂ hne h₁ h₂ heq => ?_⟩
  · obtain ⟨hrow, settings, host, launched, L, ht, hw, hs, hlt, -⟩ := hworker h
    refine ⟨hrow, hrow.hasRow.pos, settings, host, L.allocator, launched, ?_, Int.le_sub_one_of_lt hlt⟩
    rw [ht, hw, hs]
    exact L.new_eq
  · have hrow₁ := (hworker h₁).1.hasRow
    rw [heq] at hrow₁
    exact hne (hrow₁.node_eq (hworker h₂).1.hasRow)

theorem running_workers_differ_twoNodes : ∃ (c : Cluster plainTable) (g₀ g₁ : UidGenerator),
    Run ClusterStep emptyCluster twoNodes c ∧ c.nodes 0 = .running g₀ ∧ c.nodes 1 = .running g₁ ∧
      g₀.workerId ≠ g₁.workerId := by
  obtain ⟨c, g₀, g₁, hrun, h₀, h₁⟩ := twoNodes_run
  have hclusters : Run ClusterStep emptyCluster twoNodes c := hrun.mono fun _ _ _ h => h.1
  exact ⟨c, g₀, g₁, hclusters, h₀, h₁,
    (running_workers_differ hclusters).2 0 1 g₀ g₁ (by decide) h₀ h₁⟩

/-- The UIDs of different nodes with the same widths differ, whatever their clocks read. -/
theorem uids_of_nodes_differ {t w s : ℤ} (hwidths : SameWidths t w s events)
    (hrun : Clusters server events c) {node₁ node₂ : ℕ} (hne : node₁ ≠ node₂) :
    ∀ uid₁ ∈ uidsOf node₁ events, ∀ uid₂ ∈ uidsOf node₂ events, uid₁ ≠ uid₂ := by
  intro uid₁ huid₁ uid₂ huid₂ heq
  have haccounts := accounts_any hrun
  have hrunning {node : ℕ} {uid : ℤ} (huid : uid ∈ uidsOf node events) :
      ∃ g, c.nodes node = .running g := by
    by_contra hnot
    rw [(haccounts node).uidsOf_eq (not_exists.1 hnot)] at huid
    exact List.not_mem_nil huid
  obtain ⟨g₁, h₁⟩ := hrunning huid₁
  obtain ⟨g₂, h₂⟩ := hrunning huid₂
  obtain ⟨hrow₁, settings₁, host₁, launched₁, L₁, ht₁, hw₁, hs₁, -, hcarry₁⟩ :=
    (h₁ ▸ haccounts node₁).worker
  obtain ⟨hrow₂, settings₂, host₂, launched₂, L₂, ht₂, hw₂, hs₂, -, hcarry₂⟩ :=
    (h₂ ▸ haccounts node₂).worker
  obtain rfl := hwidths.layout_eq launched₁ ⟨ht₁, hw₁, hs₁⟩ launched₂ ⟨ht₂, hw₂, hs₂⟩
  have hid : g₁.workerId = g₂.workerId := by
    rw [← hcarry₁ uid₁ huid₁, heq, hcarry₂ uid₂ huid₂]
  exact hne ((hid ▸ hrow₁.hasRow).node_eq hrow₂.hasRow)

theorem uids_of_nodes_differ_twoNodes : ∃ c, Run ClusterStep emptyCluster twoNodes c ∧
    uidsOf 0 twoNodes = [10] ∧ uidsOf 1 twoNodes = [12] ∧ (10 : ℤ) ≠ 12 := by
  obtain ⟨c, -, -, hrun, -⟩ := twoNodes_run
  have hclusters : Run ClusterStep emptyCluster twoNodes c := hrun.mono fun _ _ _ h => h.1
  have hne : (0 : ℕ) ≠ 1 := by decide
  exact ⟨c, hclusters, rfl, rfl,
    uids_of_nodes_differ twoNodes_sameWidths hclusters hne 10 (by decide) 12 (by decide)⟩

/-- On time, no UID is returned twice in a whole cluster. -/
theorem clusterUids_nodup {t w s : ℤ} (hwidths : SameWidths t w s events)
    (hrun : Run timely.Step { server } events c) : (clusterUids events).Nodup := by
  have hclusters : Clusters server events c := hrun.mono fun _ _ _ h => h.1
  apply nodup_of_parties
  · intro node
    rw [uidsOf_eq]
    have haccount := accounts_run hrun node
    cases hstate : c.nodes node with
    | running g =>
      rw [hstate] at haccount
      cases haccount with
      | running launched row started starts run => exact started.nodup row.hasRow.pos.le starts run
    | down | failed | starting =>
      rw [haccount.uidsOf_eq (by simp [hstate])]
      exact List.nodup_nil
  · have hmem {x : ℕ × ℤ} (hx : x ∈ events.filterMap (·.uid)) : x.2 ∈ uidsOf x.1 events := by
      rw [← uidsOf_eq]
      exact List.mem_filterMap.2 ⟨x, hx, if_pos rfl⟩
    intro x hx y hy hne
    exact uids_of_nodes_differ hwidths hclusters hne x.2 (hmem hx) y.2 (hmem hy)

theorem clusterUids_nodup_twoNodes : ∃ c, Run timely.Step emptyCluster twoNodes c ∧
    clusterUids twoNodes = [10, 12] ∧ (clusterUids twoNodes).Nodup := by
  obtain ⟨c, -, -, hrun, -⟩ := twoNodes_run
  exact ⟨c, hrun, rfl, clusterUids_nodup twoNodes_sameWidths hrun⟩

end UID
