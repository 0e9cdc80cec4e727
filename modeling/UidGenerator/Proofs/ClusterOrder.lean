import UidGenerator.Proofs.ClusterUids

/-! The UIDs of the default generators of a cluster are ordered by the clocks that the calls
have read, whatever the worker ids of their nodes. -/

namespace UID

open DefaultUidGenerator Transition

def SameEpoch (epochSeconds : ℤ) (events : List ClusterEvent) : Prop :=
  ∀ node settings host, .launch node settings host ∈ events →
    settings.toSettings.epochSeconds = epochSeconds

/-- A UID is packed of a second that its call has read, under an id of the worker field. -/
structure Packed (L : Layout) (epochSeconds : ℤ) (call : Call) (uid : ℤ) (second workerId sequence : ℤ) :
    Prop where
  read : second ∈ call.seconds
  fits : Stamp.Fits L epochSeconds ⟨second, sequence⟩
  workerId_nonneg : 0 ≤ workerId
  workerId_lt : workerId < 2 ^ L.w
  uid_eq : uid = L.pack (second - epochSeconds) workerId sequence

/-- A later second outweighs the worker id and the sequence. -/
theorem Packed.lt {L : Layout} {epochSeconds uid₁ uid₂ second₁ second₂ workerId₁ workerId₂ : ℤ}
    {sequence₁ sequence₂ : ℤ} {call₁ call₂ : Call}
    (h₁ : Packed L epochSeconds call₁ uid₁ second₁ workerId₁ sequence₁)
    (h₂ : Packed L epochSeconds call₂ uid₂ second₂ workerId₂ sequence₂) (hlt : second₁ < second₂) :
    uid₁ < uid₂ := by
  rw [h₁.uid_eq, h₂.uid_eq]
  exact L.pack_lt_pack (by omega) h₁.workerId_lt h₂.workerId_nonneg h₁.fits.sequence_lt
    h₂.fits.sequence_nonneg

/-- Every UID of a run on time is packed in this way. -/
theorem DefaultUidGenerator.packed_of_timely {settings : Settings} {workerId : ℤ}
    {g₀ g : DefaultUidGenerator} {calls : List Call} {call : Call} {uid : ℤ} {L : Layout}
    (hready : Ready settings workerId L g₀) (hid : 0 ≤ workerId) (hrun : Run TimelyStep g₀ calls g)
    (hcall : call ∈ calls) (hout : call.outcome = .ok uid) :
    ∃ second sequence, Packed L settings.epochSeconds call uid second workerId sequence := by
  obtain ⟨pre, post, rfl⟩ := List.append_of_mem hcall
  obtain ⟨mid, mid', hpre, hstep, -⟩ := hrun.split
  obtain ⟨stamps, hissued⟩ := hready.issued hpre
  have hcases := call_cases (hissued.bitsAllocator hready.bitsAllocator) hstep.1
  have hepoch : ∀ second ∈ call.seconds, g₀.epochSeconds ≤ second := fun second hsecond =>
    (hready.seconds_mem hrun call hcall second hsecond).1
  rcases hissued.call hcases hepoch (hready.notWaiting hrun hcall (calls_of_timely hpre)) with
    ⟨⟨e, herror⟩, -⟩ | ⟨a, hread, hfits, hissue, -⟩
  · rw [hout] at herror
    exact nomatch herror
  · have hsettings : g₀.epochSeconds = settings.epochSeconds := by rw [← hready.settings]
    have hworker : g₀.workerId = workerId := hready.workerId
    have huid : uid = g₀.uidOf L.allocator a := by
      rw [hout] at hissue
      exact Except.ok.inj hissue
    refine ⟨a.second, a.sequence, hread, hsettings ▸ hfits, hid, hready.workerId_lt, ?_⟩
    rw [huid, uidOf_eq hfits, hworker, hsettings, L.allocate_eq_pack]
    · have := hfits.epoch
      omega
    · exact hsettings ▸ hfits.range
    · exact hid
    · exact hready.workerId_lt
    · exact hfits.sequence_nonneg
    · exact hfits.sequence_lt

variable {S : WorkerNodeServer} {server : S.State} {events : List ClusterEvent} {c : Cluster S}

/-- The call was made by a node that runs a default generator. -/
theorem packed_of_call (hrun : Run timely.Step { server } events c) {node : ℕ} {call : Call} {uid : ℤ}
    (hcall : .generate node (.default call) ∈ events) (hout : call.outcome = .ok uid) :
    ∃ (settings : NodeSettings) (host : Host) (L : Layout) (second workerId sequence : ℤ),
      .launch node settings host ∈ events ∧ settings.toSettings.timeBits = L.t ∧
        settings.toSettings.workerBits = L.w ∧ settings.toSettings.seqBits = L.s ∧
        Packed L settings.toSettings.epochSeconds call uid second workerId sequence := by
  have huid : .default call ∈ historyOf node events :=
    List.mem_filterMap.2 ⟨_, hcall, if_pos rfl⟩
  have haccount := accounts_run hrun node
  generalize c.nodes node = state at haccount
  cases haccount with
  | down unused | failed unused | starting unused => exact (List.not_mem_nil (unused ▸ huid)).elim
  | @running settings host workerId now g₀ _ launched row started starts run =>
    cases started with
    | default hinit =>
      obtain ⟨calls, g', hhistory, -, hcalls⟩ := run_default DefaultUidGenerator.TimelyStep
        (fun _ _ _ h => h.1) (fun _ _ _ h => ⟨by cases h.1; assumption, h.2⟩) run
      have hmem : call ∈ calls := by
        rw [hhistory, List.mem_map] at huid
        obtain ⟨call', hmem, heq⟩ := huid
        exact UidGenerator.Event.default.inj heq ▸ hmem
      obtain ⟨L, hready⟩ := ready_of_init hinit
      obtain ⟨second, sequence, hpacked⟩ :=
        packed_of_timely hready row.hasRow.pos.le hcalls hmem hout
      exact ⟨_, host, L, second, workerId, sequence, launched, hready.timeBits, hready.workerBits,
        hready.seqBits, hpacked⟩
    | cached hinit =>
      obtain ⟨calls, g', hhistory, -, -⟩ := run_cached (fun _ _ _ => True)
        (fun _ _ _ h => h.1) (fun _ _ _ _ => trivial) run
      rw [hhistory, List.mem_map] at huid
      obtain ⟨_, -, heq⟩ := huid
      exact nomatch heq

/-- On time, a call whose clock reads later seconds returns a greater UID, on whichever nodes
the two calls are made. -/
theorem uids_ordered {t w s epochSeconds : ℤ} (hwidths : SameWidths t w s events)
    (hepoch : SameEpoch epochSeconds events) (hrun : Run timely.Step { server } events c)
    {node₁ node₂ : ℕ} {call₁ call₂ : Call} {uid₁ uid₂ : ℤ}
    (hcall₁ : .generate node₁ (.default call₁) ∈ events) (hout₁ : call₁.outcome = .ok uid₁)
    (hcall₂ : .generate node₂ (.default call₂) ∈ events) (hout₂ : call₂.outcome = .ok uid₂)
    (hlater : ∀ second₁ ∈ call₁.seconds, ∀ second₂ ∈ call₂.seconds, second₁ < second₂) :
    uid₁ < uid₂ := by
  obtain ⟨settings₁, host₁, L₁, second₁, workerId₁, sequence₁, launched₁, ht₁, hw₁, hs₁, hpacked₁⟩ :=
    packed_of_call hrun hcall₁ hout₁
  obtain ⟨settings₂, host₂, L₂, second₂, workerId₂, sequence₂, launched₂, ht₂, hw₂, hs₂, hpacked₂⟩ :=
    packed_of_call hrun hcall₂ hout₂
  obtain rfl := hwidths.layout_eq launched₁ ⟨ht₁, hw₁, hs₁⟩ launched₂ ⟨ht₂, hw₂, hs₂⟩
  rw [hepoch node₁ settings₁ host₁ launched₁] at hpacked₁
  rw [hepoch node₂ settings₂ host₂ launched₂] at hpacked₂
  exact hpacked₁.lt hpacked₂ (hlater _ hpacked₁.read _ hpacked₂.read)

/-- The node with the greater worker id is called first. -/
def twoDefaults : List ClusterEvent :=
  startup 0 (.default CachedUidGenerator.fourSlots.toSettings) firstHost 1 0 ++
    startup 1 (.default CachedUidGenerator.fourSlots.toSettings) secondHost 2 0 ++
    [.generate 1 (.default ⟨[1000], .ok 12⟩), .generate 0 (.default ⟨[2000], .ok 18⟩)]

theorem twoDefaults_run : ∃ c, Run timely.Step emptyCluster twoDefaults c := by
  let initial (id : ℤ) := ((DefaultUidGenerator.configured
    CachedUidGenerator.fourSlots.toSettings).afterPropertiesSet (.ok id)).2
  have hinit (id : ℤ) (hok : ((DefaultUidGenerator.configured
      CachedUidGenerator.fourSlots.toSettings).afterPropertiesSet (.ok id)).1 = .ok ()) :
      (NodeSettings.default CachedUidGenerator.fourSlots.toSettings).afterPropertiesSet (.ok id) 0 0 =
        some (.ok (), .default (initial id)) := by
    rw [NodeSettings.afterPropertiesSet, ← hok]
  have hcall (id reading uid : ℤ) (hsecond : 0 ≤ toSeconds reading ∧ toSeconds reading ≤ 2 ^ 60 - 1)
      (hout : ((initial id).getUID [reading]).map (fun x => (x.1, x.2.2, x.2.1.epochSeconds,
        x.2.1.bitsAllocator.map (·.maxDeltaSeconds))) = some (.ok uid, [], 0, some (2 ^ 60 - 1))) :
      ∃ last, DefaultUidGenerator.TimelyStep (initial id) ⟨[reading], .ok uid⟩ last := by
    obtain ⟨⟨out, last, rest⟩, hget, heq⟩ := Option.map_eq_some_iff.1 hout
    simp only [Prod.mk.injEq] at heq
    obtain ⟨rfl, rfl, hepoch, hmax⟩ := heq
    refine ⟨last, hget, fun second hread A hA => ?_⟩
    rw [Option.mem_def.1 hA, Option.map_some, Option.some.injEq] at hmax
    rw [hmax, hepoch, List.mem_singleton.1 hread]
    omega
  have hdown : emptyCluster.nodes 0 = .down := rfl
  obtain ⟨c₁, hrun₁, hnode₁, hother₁, hkeys₁⟩ :=
    startup_run timely firstHost hdown rfl emptyCluster_generates (hinit 1 rfl) trivial
  have hid : c₁.table.Generates 2 := by
    rw [WorkerNodeTable.generates_iff, hkeys₁]
    decide
  obtain ⟨c₂, hrun₂, hnode₂, hother₂, -⟩ :=
    startup_run timely secondHost (hother₁ 1 (by decide)) rfl hid (hinit 2 rfl) trivial
  obtain ⟨last₂, hcall₂⟩ := hcall 2 1000 12 (by decide) (by decide +kernel)
  obtain ⟨last₁, hcall₁⟩ := hcall 1 2000 18 (by decide) (by decide +kernel)
  have hnode₁' := (hother₂ 0 (by decide)).trans hnode₁
  exact ⟨_, run_append.2 ⟨c₂, run_append.2 ⟨c₁, hrun₁, hrun₂⟩,
    .cons (.generate hnode₂ (.default hcall₂.1) ⟨.default hcall₂.1, hcall₂.2⟩)
      (.cons (.generate ((Cluster.setNode_of_ne _ (by decide) _).trans hnode₁') (.default hcall₁.1)
        ⟨.default hcall₁.1, hcall₁.2⟩) .nil)⟩⟩

theorem uids_ordered_twoDefaults : ∃ c, Run timely.Step emptyCluster twoDefaults c ∧
    clusterUids twoDefaults = [12, 18] ∧ (12 : ℤ) < 18 := by
  obtain ⟨c, hrun⟩ := twoDefaults_run
  have hlaunches {node : ℕ} {settings : NodeSettings} {host : Host}
      (h : .launch node settings host ∈ twoDefaults) :
      settings = .default CachedUidGenerator.fourSlots.toSettings := by
    simp only [twoDefaults, startup, List.mem_append, List.mem_cons, reduceCtorEq, List.not_mem_nil,
      ClusterEvent.launch.injEq, or_false] at h
    rcases h with ⟨-, rfl, -⟩ | ⟨-, rfl, -⟩ <;> rfl
  have hwidths : SameWidths 60 2 1 twoDefaults := fun node settings host h => by
    rw [hlaunches h]
    exact ⟨rfl, rfl, rfl⟩
  have hepoch : SameEpoch 0 twoDefaults := fun node settings host h => by
    rw [hlaunches h]
    rfl
  have hcall₁ : .generate 1 (.default ⟨[1000], .ok 12⟩) ∈ twoDefaults := by simp [twoDefaults]
  have hcall₂ : .generate 0 (.default ⟨[2000], .ok 18⟩) ∈ twoDefaults := by simp [twoDefaults]
  exact ⟨c, hrun, rfl, uids_ordered hwidths hepoch hrun hcall₁ rfl hcall₂ rfl (by decide)⟩

end UID
