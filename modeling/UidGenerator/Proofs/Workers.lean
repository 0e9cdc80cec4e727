import UidGenerator.Proofs.Lifecycle
import UidGenerator.Proofs.Uniqueness

/-! Whose worker id a UID carries, for both generators and for any clock, epoch, ring
and reject handlers. What a ring returns was put into it, whatever its handlers do
with the takes that it rejects. -/

namespace UID

open RingBuffer Transition

/-- Every UID that can be taken satisfies `Q`. -/
def Stocked (Q : ℤ → Prop) (r : RingBuffer) : Prop :=
  ∀ i, r.flags i = CAN_TAKE_FLAG → Q (r.slots i)

def ProvidesOnly (Q : ℤ → Prop) (cb : Callbacks) : Prop :=
  ∀ second uidList, cb.uidProvider second = .ok uidList → ∀ uid ∈ uidList, Q (toLong uid)

variable {Q : ℤ → Prop} {cb : Callbacks} {r r' : RingBuffer} {p p' : PaddedRing} {fuel : ℕ}

theorem stocked_new {bufferSize : ℤ} {paddingFactor : ℚ}
    (h : RingBuffer.new bufferSize paddingFactor = .ok r) : Stocked Q r := by
  unfold RingBuffer.new at h
  split_ifs at h
  obtain rfl := Except.ok.inj h
  intro i hi
  simp [CAN_PUT_FLAG, CAN_TAKE_FLAG] at hi

theorem Stocked.tryPut (h : Stocked Q r) {uid : ℤ} (hQ : Q (toLong uid))
    (hput : r.tryPut uid = some r') : Stocked Q r' := by
  simp only [RingBuffer.tryPut] at hput
  split_ifs at hput
  obtain rfl := Option.some.inj hput
  intro i hi
  simp only [Function.update_apply] at hi ⊢
  split_ifs at hi ⊢
  · exact hQ
  · exact h i hi

theorem Stocked.finish (h : Stocked Q r) {nextCursor : ℤ} {out : Except Throwable ℤ}
    (hfinish : r.finish nextCursor = (out, r')) :
    Stocked Q r' ∧ ∀ uid, out = .ok uid → Q uid := by
  by_cases hflag : r.flags (r.calSlotIndex nextCursor) = CAN_TAKE_FLAG
  · obtain ⟨rfl, rfl⟩ := Prod.mk.inj ((finish_taken hflag).symm.trans hfinish)
    refine ⟨?_, fun uid huid => Except.ok.inj huid ▸ h _ hflag⟩
    intro i hi
    simp only [Function.update_apply] at hi
    split_ifs at hi
    · cases hi
    · exact h i hi
  · obtain ⟨rfl, rfl⟩ := Prod.mk.inj ((finish_refused hflag).symm.trans hfinish)
    exact ⟨h, by simp⟩

theorem Stocked.putAll (h : Stocked Q r) {uidList : List ℤ} (hQ : ∀ uid ∈ uidList, Q (toLong uid))
    {out : Except Throwable Bool} (hputs : putAll cb r uidList = (out, r')) : Stocked Q r' := by
  induction uidList generalizing r with
  | nil =>
    simp only [UID.putAll, Prod.mk.injEq] at hputs
    exact hputs.2 ▸ h
  | cons uid uidList ih =>
    obtain ⟨huid, hrest⟩ := List.forall_mem_cons.1 hQ
    rcases putAll_steps hputs with ⟨r₁, htry, hputs⟩ | ⟨-, rfl, -⟩
    · exact ih (h.tryPut huid htry) hrest hputs
    · exact h

theorem Stocked.paddingLoop (h : Stocked Q p.ringBuffer) (hQ : ProvidesOnly Q cb)
    {out : Except Throwable Unit} (hloop : p.paddingLoop cb fuel = some (out, p')) :
    Stocked Q p'.ringBuffer := by
  induction fuel generalizing p with
  | zero => simp [PaddedRing.paddingLoop] at hloop
  | succ fuel ih =>
    cases paddingLoop_steps hloop with
    | threw _ _ _ hrest =>
      subst hrest
      exact h
    | stopped uidList _ r hprov hputs _ _ hrest =>
      subst hrest
      exact h.putAll (hQ _ _ hprov) hputs
    | more uidList r hprov hputs hloop => exact ih (h.putAll (hQ _ _ hprov) hputs) hloop

theorem Stocked.paddingBuffer (h : Stocked Q p.ringBuffer) (hQ : ProvidesOnly Q cb)
    {out : Except Throwable Unit} (hpad : p.paddingBuffer cb fuel = some (out, p')) :
    Stocked Q p'.ringBuffer := by
  rcases paddingBuffer_steps hpad with ⟨-, -, rfl⟩ | ⟨-, mid, hloop, rfl⟩
  · exact h
  · rw [release_ringBuffer]
    exact Stocked.paddingLoop (p := p.setRunning true) h hQ hloop

theorem Stocked.triggerPadding (h : Stocked Q p.ringBuffer) (hQ : ProvidesOnly Q cb)
    {nextCursor : ℤ} {out : Except Throwable Unit}
    (htrigger : p.triggerPadding cb fuel nextCursor = some (out, p')) : Stocked Q p'.ringBuffer := by
  rcases triggerPadding_cases htrigger with ⟨-, -, rfl⟩ | ⟨-, -, -, rfl⟩ | ⟨-, -, -, out', hpad⟩
  · exact h
  · exact h
  · exact h.paddingBuffer hQ hpad

/-- A take returns what is in a slot, also when its reject handler lets it go on. -/
theorem Stocked.take (h : Stocked Q p.ringBuffer) (hQ : ProvidesOnly Q cb)
    {outcome : Except Throwable ℤ} (htake : p.take cb fuel = some (outcome, p')) :
    Stocked Q p'.ringBuffer ∧ ∀ uid, outcome = .ok uid → Q uid := by
  have hmoved : Stocked Q (moveCursor p p.ringBuffer.claim.1).ringBuffer := h
  cases take_steps htake with
  | back _ hout hrest =>
    subst hout hrest
    exact ⟨h, by simp⟩
  | refused e _ hpadding hout =>
    subst hout
    exact ⟨hmoved.triggerPadding hQ hpadding, by simp⟩
  | read mid _ hpadding hread =>
    have hmid := hmoved.triggerPadding hQ hpadding
    rcases readSlot_steps hread with ⟨e, -, -, rfl, rfl⟩ | ⟨-, r, hfinish, rfl⟩
    · exact ⟨hmid, by simp⟩
    · exact hmid.finish hfinish

theorem Stocked.step (h : Stocked Q p.ringBuffer) (hQ : ProvidesOnly Q cb) {e : PaddedEvent}
    (hput : ∀ uid out, e ≠ .put uid out) (hstep : PaddedStep cb p e p') :
    Stocked Q p'.ringBuffer ∧ ∀ uid ∈ e.uid, Q uid := by
  cases event_cases hstep with
  | put uid out _ hevent => exact absurd hevent (hput uid out)
  | take fuel outcome hevent htake =>
    obtain ⟨hnext, hout⟩ := h.take hQ htake
    refine ⟨hnext, fun uid huid => hout uid ?_⟩
    rw [hevent] at huid
    cases outcome with
    | error e => cases huid
    | ok uid' => rw [Option.some.inj huid]
  | pass first last fuel out hsilent hbefore hpad hafter =>
    rw [hsilent, hafter.1]
    exact ⟨Stocked.paddingBuffer (by rwa [hbefore.1]) hQ hpad, by simp⟩
  | same hsilent hsame =>
    rw [hsilent, hsame.1]
    exact ⟨h, by simp⟩

namespace CachedUidGenerator

variable {g g' : CachedUidGenerator} {L : Layout} {settings : CachedSettings} {workerId now : ℤ}

def Carries (L : Layout) (workerId uid : ℤ) : Prop := (L.allocator.parse uid).workerId = workerId

/-- The ring of a generator, if it has one, only holds the UIDs of its worker. -/
structure OfWorker (L : Layout) (workerId : ℤ) (g : CachedUidGenerator) : Prop where
  bitsAllocator : g.bitsAllocator = some L.allocator
  workerId_eq : g.workerId = workerId
  stocked : ∀ p ∈ g.padded, Stocked (Carries L workerId) p.ringBuffer

theorem providesOnly (hA : g.bitsAllocator = some L.allocator) (hw : 0 ≤ g.workerId)
    (hw' : g.workerId < 2 ^ L.w) : ProvidesOnly (Carries L g.workerId) g.callbacks := by
  intro second uidList h uid huid
  have hmem : uid ∈ provided g.callbacks second := by rwa [provided, h]
  obtain ⟨offset, hoffset, rfl⟩ := mem_provided hA hmem
  rw [toLong_eq_self (isLong_batchUid g L second offset), Carries, parse_batchUid hw hw' _ hoffset]

theorem ofWorker_fill (hA : g.bitsAllocator = some L.allocator) (hw : 0 ≤ g.workerId)
    (hw' : g.workerId < 2 ^ L.w) {p : PaddedRing}
    (hp : Stocked (Carries L g.workerId) p.ringBuffer) {fuel : ℕ} {outcome : Except Throwable Unit}
    (h : g.fillRingBuffer p fuel = some (outcome, g')) : OfWorker L g.workerId g' := by
  unfold fillRingBuffer at h
  cases hpad : p.paddingBuffer g.callbacks fuel with
  | none => simp [hpad] at h
  | some result =>
    obtain ⟨out, filled⟩ := result
    have hfilled := hp.paddingBuffer (providesOnly hA hw hw') hpad
    cases out with
    | error e =>
      simp only [hpad, Option.some.injEq, Prod.mk.injEq] at h
      obtain ⟨-, rfl⟩ := h
      exact ⟨hA, rfl, by rintro _ ⟨⟩; exact hfilled⟩
    | ok _ =>
      simp only [hpad, Option.some.injEq, Prod.mk.injEq] at h
      obtain ⟨-, rfl⟩ := h
      refine ⟨hA, rfl, ?_⟩
      rintro _ ⟨⟩
      rwa [(start_sameQueue (p := filled) Prod.mk.eta.symm).1]

theorem ofWorker_initRingBuffer (hA : g.bitsAllocator = some L.allocator) (hw : 0 ≤ g.workerId)
    (hw' : g.workerId < 2 ^ L.w) (hpadded : g.padded = none) {A : BitsAllocator} {fuel : ℕ}
    {outcome : Except Throwable Unit}
    (h : g.initRingBuffer A now fuel = some (outcome, g')) : OfWorker L g.workerId g' := by
  unfold initRingBuffer at h
  cases hnew : RingBuffer.new (g.bufferSize A) g.paddingFactor with
  | error e =>
    simp only [hnew, Option.some.injEq, Prod.mk.injEq] at h
    obtain ⟨-, rfl⟩ := h
    exact ⟨hA, rfl, by simp [hpadded]⟩
  | ok r =>
    have hstocked : Stocked (Carries L g.workerId) r := stocked_new hnew
    cases hcheck : checkScheduleInterval g.scheduleInterval with
    | error e =>
      simp only [hnew, hcheck, Option.some.injEq, Prod.mk.injEq] at h
      obtain ⟨-, rfl⟩ := h
      exact ⟨hA, rfl, by rintro _ ⟨⟩; exact hstocked⟩
    | ok _ =>
      simp only [hnew, hcheck] at h
      exact ofWorker_fill hA hw hw' hstocked h

theorem ofWorker_init (ht : settings.timeBits = L.t) (hw : settings.workerBits = L.w)
    (hs : settings.seqBits = L.s) (hid : 0 ≤ workerId) (hid' : workerId < 2 ^ L.w) {fuel : ℕ}
    {outcome : Except Throwable Unit}
    (h : (configured settings).afterPropertiesSet (.ok workerId) now fuel = some (outcome, g)) :
    OfWorker L workerId g := by
  have hsuper := DefaultUidGenerator.afterPropertiesSet_of_layout
    (g := (configured settings).toDefaultUidGenerator) ht hw hs hid'
  unfold afterPropertiesSet at h
  simp only [hsuper] at h
  exact ofWorker_initRingBuffer rfl hid hid' rfl h

theorem OfWorker.step (h : OfWorker L workerId g) (hid : 0 ≤ workerId) (hid' : workerId < 2 ^ L.w)
    {e : Event} (hstep : Step g e g') :
    OfWorker L workerId g' ∧ ∀ uid ∈ e.uid, Carries L workerId uid := by
  obtain ⟨hA, rfl, hstocked⟩ := h
  cases hp : g.padded with
  | some p =>
    obtain ⟨e', p', hpadded, rfl, huid, hput⟩ := step_padded hp hstep
    obtain ⟨hnext, hcarries⟩ := (hstocked p hp).step (providesOnly hA hid hid') hput hpadded
    exact ⟨⟨hA, rfl, by rintro _ ⟨⟩; exact hnext⟩, huid ▸ hcarries⟩
  | none =>
    cases hstep with
    | getUID h =>
      simp only [getUID, hp, Option.some.injEq, Prod.mk.injEq] at h
      obtain ⟨rfl, rfl⟩ := h
      exact ⟨⟨hA, rfl, hstocked⟩, by simp [Event.uid, Except.toOption]⟩
    | paddingBuffer made _ => rw [hp] at made; cases made
    | fire made _ _ _ => rw [hp] at made; cases made
    | destroy h =>
      simp only [destroy, hp, Prod.mk.injEq] at h
      obtain ⟨rfl, rfl⟩ := h
      exact ⟨⟨hA, rfl, hstocked⟩, by simp [Event.uid]⟩

theorem carries_run (h : OfWorker L workerId g) (hid : 0 ≤ workerId) (hid' : workerId < 2 ^ L.w)
    {events : List Event} (hrun : Runs g events g') :
    ∀ uid ∈ returnedUids events, Carries L workerId uid := by
  refine (hrun.invariant (fun events g' => OfWorker L workerId g' ∧
    ∀ uid ∈ returnedUids events, Carries L workerId uid) ⟨h, by simp [returnedUids]⟩ ?_).2
  rintro events mid e mid' - ⟨hserves, hcarries⟩ hstep
  obtain ⟨hnext, huid⟩ := hserves.step hid hid' hstep
  refine ⟨hnext, fun uid hmem => ?_⟩
  rw [returnedUids, filterMap_snoc, List.mem_append, Option.mem_toList] at hmem
  rcases hmem with hmem | hmem
  · exact hcarries uid hmem
  · exact huid uid hmem

end CachedUidGenerator

/-- A UID that a generator with these widths and this worker id returns in some run. -/
inductive ReturnedBy (timeBits workerBits seqBits workerId uid : ℤ) : Prop
  | default (settings : Settings) (g g' : DefaultUidGenerator)
      (calls : List DefaultUidGenerator.Call) (timeBits_eq : settings.timeBits = timeBits)
      (workerBits_eq : settings.workerBits = workerBits) (seqBits_eq : settings.seqBits = seqBits)
      (init : (DefaultUidGenerator.configured settings).afterPropertiesSet (.ok workerId) =
        (.ok (), g))
      (run : DefaultUidGenerator.Calls g calls g') (mem : uid ∈ DefaultUidGenerator.returned calls)
  | cached (settings : CachedSettings) (now : ℤ) (fuel : ℕ) (outcome : Except Throwable Unit)
      (g g' : CachedUidGenerator) (events : List CachedUidGenerator.Event)
      (timeBits_eq : settings.timeBits = timeBits) (workerBits_eq : settings.workerBits = workerBits)
      (seqBits_eq : settings.seqBits = seqBits)
      (init : (CachedUidGenerator.configured settings).afterPropertiesSet (.ok workerId) now fuel =
        some (outcome, g))
      (run : CachedUidGenerator.Runs g events g') (mem : uid ∈ CachedUidGenerator.returnedUids events)

theorem DefaultUidGenerator.workerId_of_mem_returned {g g' : DefaultUidGenerator} {L : Layout}
    {calls : List Call} (hA : g.bitsAllocator = some L.allocator) (hseq : g.sequence = 0)
    (hrun : Calls g calls g') :
    ∀ uid ∈ returned calls, (L.allocator.parse uid).workerId = g.workerId % 2 ^ L.w := by
  refine hrun.invariant (fun calls _ => ∀ uid ∈ returned calls,
    (L.allocator.parse uid).workerId = g.workerId % 2 ^ L.w) (by simp [returned]) ?_
  intro calls mid c mid' hpre h hstep uid hmem
  have hframed := framed_run hA hseq hpre
  rw [returned_snoc, List.mem_append, Option.mem_toList] at hmem
  rcases hmem with hmem | hmem
  · exact h uid hmem
  · have hout : c.outcome = .ok uid := by
      cases hout : c.outcome with
      | error e => simp [hout, Except.toOption] at hmem
      | ok uid' => simpa [hout, Except.toOption] using hmem
    rw [workerId_of_returned (hframed.bitsAllocator hA)
      ⟨rfl, hframed.sequence_nonneg, hframed.sequence_lt⟩ hstep hout, hframed.frame]

theorem ReturnedBy.workerId {L : Layout} {workerId uid : ℤ}
    (h : ReturnedBy L.t L.w L.s workerId uid) (hid : 0 ≤ workerId) (hid' : workerId < 2 ^ L.w) :
    (L.allocator.parse uid).workerId = workerId := by
  cases h with
  | default settings g g' calls ht hw hs init run mem =>
    have hsuper := DefaultUidGenerator.afterPropertiesSet_of_layout
      (g := DefaultUidGenerator.configured settings) ht hw hs hid'
    obtain rfl := (Prod.mk.inj (hsuper.symm.trans init)).2
    rw [DefaultUidGenerator.workerId_of_mem_returned rfl rfl run uid mem, Int.emod_eq_of_lt hid hid']
  | cached settings now fuel outcome g g' events ht hw hs init run mem =>
    exact CachedUidGenerator.carries_run (CachedUidGenerator.ofWorker_init ht hw hs hid hid' init)
      hid hid' run uid mem

/-- Generators with the same widths and different worker ids never return the same UID. -/
theorem uids_of_workers_differ {t w s : ℤ} (ht : 0 < t) (hw : 0 < w) (hs : 0 < s)
    (hsum : t + w + s = 63) :
    ∃ A, BitsAllocator.new t w s = .ok A ∧
      ∀ workerId₁ workerId₂ uid₁ uid₂, 0 ≤ workerId₁ → workerId₁ ≤ A.maxWorkerId →
        0 ≤ workerId₂ → workerId₂ ≤ A.maxWorkerId → workerId₁ ≠ workerId₂ →
        ReturnedBy t w s workerId₁ uid₁ → ReturnedBy t w s workerId₂ uid₂ → uid₁ ≠ uid₂ := by
  obtain ⟨L, rfl, rfl, rfl⟩ := Layout.exists_of_widths ht hw hs hsum
  refine ⟨L.allocator, L.new_eq, ?_⟩
  intro workerId₁ workerId₂ uid₁ uid₂ h₁ h₁' h₂ h₂' hne hreturned₁ hreturned₂ heq
  have hid₁ := ReturnedBy.workerId (L := L) hreturned₁ h₁ (Int.lt_of_le_sub_one h₁')
  have hid₂ := ReturnedBy.workerId (L := L) hreturned₂ h₂ (Int.lt_of_le_sub_one h₂')
  rw [heq] at hid₁
  exact hne (hid₁.symm.trans hid₂)

/-- Worker 1 takes from a ring what worker 2 generates at the same second. -/
theorem uids_of_workers_differ_four_slots :
    ∃ uid₁ uid₂, ReturnedBy 60 2 1 1 uid₁ ∧ ReturnedBy 60 2 1 2 uid₂ ∧ uid₁ ≠ uid₂ := by
  let settings := CachedUidGenerator.fourSlots
  let cached := CachedUidGenerator.initialized settings
  let default := ((DefaultUidGenerator.configured settings.toSettings).afterPropertiesSet (.ok 2)).2
  let call : DefaultUidGenerator.Call := ⟨[1000], .ok 12⟩
  have hcached : CachedUidGenerator.Step cached (.getUID (.ok 10)) _ :=
    .getUID (show cached.getUID 0 = _ from eq_some_of_map_fst cached (by decide +kernel))
  obtain ⟨last, hdefault⟩ : ∃ last, DefaultUidGenerator.CallStep default call last := by
    have hout : (default.getUID [1000]).map (fun x => (x.1, x.2.2)) = some (.ok 12, []) := by
      decide +kernel
    obtain ⟨⟨out, last, rest⟩, hget, heq⟩ := Option.map_eq_some_iff.1 hout
    obtain ⟨rfl, rfl⟩ := Prod.mk.inj heq
    exact ⟨last, hget⟩
  have h₁ : ReturnedBy 60 2 1 1 10 :=
    .cached settings 0 3 (.ok ()) cached _ [.getUID (.ok 10)] rfl rfl rfl
      CachedUidGenerator.init_fourSlots (run_singleton.2 hcached) (by decide)
  have h₂ : ReturnedBy 60 2 1 2 12 :=
    .default settings.toSettings default _ [call] rfl rfl rfl rfl (run_singleton.2 hdefault)
      (by decide)
  obtain ⟨A, hA, hdiffer⟩ := uids_of_workers_differ (t := 60) (w := 2) (s := 1) (by decide)
    (by decide) (by decide) (by decide)
  have hmax : A.maxWorkerId = 3 := by
    have hnew : (BitsAllocator.new 60 2 1).toOption.map (·.maxWorkerId) = some 3 := by decide +kernel
    rw [hA] at hnew
    exact Option.some.inj hnew
  exact ⟨10, 12, h₁, h₂, hdiffer 1 2 10 12 (by decide) (by rw [hmax]; decide) (by decide)
    (by rw [hmax]; decide) (by decide) h₁ h₂⟩

end UID
