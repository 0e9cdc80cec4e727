import UidGenerator.Proofs.Lifecycle

/-! What `parseUID` reads out of the UIDs of a `DefaultUidGenerator`, in every state that
initializations and calls can reach. A UID reports its worker id, second and sequence as
long as the id is not negative and the second is not before the epoch. -/

namespace UID

open BitField Transition DefaultUidGenerator

namespace DefaultUidGenerator

variable {g g' : DefaultUidGenerator} {L : Layout} {c : Call} {uid : ℤ}

/-- A call issues its UID at the last reading of the clock that it takes. -/
theorem lastSecond_of_returned {A : BitsAllocator} (hA : g.bitsAllocator = some A)
    (h : CallStep g c g') (hout : c.outcome = .ok uid) :
    ∃ now, c.readings.getLast? = some now ∧ g'.lastSecond = toSeconds now := by
  obtain ⟨readings, outcome⟩ := c
  obtain rfl : outcome = .ok uid := hout
  cases readings with
  | nil => simp [CallStep, getUID, nextId] at h
  | cons now clock =>
    unfold CallStep getUID at h
    simp only [nextId, hA] at h
    unfold nextIdAt at h
    by_cases hpast : g.PastRange A now
    · simp [getCurrentSecond_pastRange hpast] at h
    simp only [getCurrentSecond_inRange hpast] at h
    by_cases hback : toSeconds now < g.lastSecond
    · simp [hback] at h
    simp only [hback, if_false] at h
    by_cases hsame : toSeconds now = g.lastSecond
    · simp only [hsame, if_true] at h
      by_cases hwrap : and (g.sequence + 1) A.maxSequence = 0
      · simp only [hwrap, if_true] at h
        cases hwait : getNextSecond { g with sequence := 0 } A g.lastSecond clock with
        | none => simp [hwait] at h
        | some r =>
          obtain ⟨out, rest⟩ := r
          obtain ⟨waited, last, hclock, -, ⟨-, rfl⟩ | ⟨-, -, rfl⟩⟩ := getNextSecond_cases hwait
          · simp [hwait] at h
          · simp only [hwait, issue, Option.some.injEq, Prod.mk.injEq] at h
            obtain ⟨-, rfl, rfl⟩ := h
            refine ⟨last, ?_, rfl⟩
            rw [hclock, ← List.cons_append, List.getLast?_concat]
      · simp only [hwrap, if_false, issue, Option.some.injEq, Prod.mk.injEq] at h
        obtain ⟨-, rfl, rfl⟩ := h
        exact ⟨now, rfl, hsame.symm⟩
    · simp only [hsame, if_false, issue, Option.some.injEq, Prod.mk.injEq] at h
      obtain ⟨-, rfl, rfl⟩ := h
      exact ⟨now, rfl, rfl⟩

structure Packs (L : Layout) (g : DefaultUidGenerator) (c : Call) (g' : DefaultUidGenerator)
    (uid : ℤ) : Prop where
  read : g'.lastSecond ∈ c.seconds
  range : g'.lastSecond - g.epochSeconds < 2 ^ L.t
  sequence_nonneg : 0 ≤ g'.sequence
  sequence_lt : g'.sequence < 2 ^ L.s
  packed : uid = L.allocator.allocate (g'.lastSecond - g.epochSeconds) g.workerId g'.sequence

theorem packs_of_returned (hA : g.bitsAllocator = some L.allocator) (hframed : Framed L g g)
    (h : CallStep g c g') (hout : c.outcome = .ok uid) : Packs L g c g' uid := by
  have hnext := hframed.call hA h
  cases call_cases hA h with
  | refused _ _ _ _ herr => simp [hout] at herr
  | exhausted _ _ _ _ _ _ _ herr => simp [hout] at herr
  | issued second sequence hread _ hrange _ hok =>
    rw [hout, Except.ok.injEq, subtract, L.allocate_toLong] at hok
    refine ⟨hread, ?_, hnext.sequence_nonneg, hnext.sequence_lt, hok⟩
    obtain ⟨now, hnow, rfl⟩ := List.mem_map.1 hread
    have hin := hrange now hnow
    simp only [PastRange, show L.allocator.maxDeltaSeconds = 2 ^ L.t - 1 from rfl] at hin
    simp only
    omega

theorem Packs.parse (h : Packs L g c g' uid) (hw : 0 ≤ g.workerId) (hw' : g.workerId < 2 ^ L.w) :
    L.allocator.parse uid =
      ⟨(g'.lastSecond - g.epochSeconds) % 2 ^ (L.t + 1), g.workerId, g'.sequence⟩ := by
  rw [h.packed, L.parse_allocate_of_worker _ hw hw' h.sequence_nonneg h.sequence_lt]

/-- From the epoch on, the UID stays clear of the sign and reports what it was packed from. -/
theorem Packs.reports (h : Packs L g c g' uid) (hw : 0 ≤ g.workerId) (hw' : g.workerId < 2 ^ L.w)
    (hepoch : g.epochSeconds ≤ g'.lastSecond) :
    0 ≤ uid ∧ uid < 2 ^ 63 ∧
      L.allocator.parse uid = ⟨g'.lastSecond - g.epochSeconds, g.workerId, g'.sequence⟩ := by
  have hdelta : 0 ≤ g'.lastSecond - g.epochSeconds := by omega
  have hrange : g'.lastSecond - g.epochSeconds < 2 ^ (L.t + 1) :=
    h.range.trans (pow_lt_pow_right₀ (by norm_num) (by omega))
  obtain ⟨h0, h63⟩ :=
    L.pack_range hdelta h.range hw hw' h.sequence_nonneg h.sequence_lt
  rw [h.parse hw hw', Int.emod_eq_of_lt hdelta hrange]
  rw [h.packed, L.allocate_eq_pack hdelta h.range hw hw' h.sequence_nonneg h.sequence_lt]
  exact ⟨h0, h63, rfl⟩

end DefaultUidGenerator

variable {settings : Settings} {events : List LifecycleEvent} {s : Lifecycle}

/-- After a resolved initialization the generator works under the id accepted last. -/
theorem workerId_of_resolved (hrun : Lifecycles settings events s) (hres : Resolved events) :
    (accepted events).getLast? = some s.generator.workerId := by
  revert hres
  refine hrun.invariant (fun events s => Resolved events →
    (accepted events).getLast? = some s.generator.workerId) (by simp [Resolved]) ?_
  intro events s e s' hpre ih hstep hres
  have htracks := tracks_run hpre
  rw [resolved_snoc] at hres
  rw [accepted_snoc]
  cases hstep with
  | build hb =>
    rcases hres with hsettles | ⟨-, hres⟩
    · revert hsettles
      rename_i outcome
      cases outcome <;> simp [LifecycleEvent.settles]
    · obtain ⟨-, hframe, -⟩ := htracks.prepared.build hb
      rw [hframe]
      simpa [LifecycleEvent.accepts] using ih hres
  | answer ha =>
    rcases hres with hsettles | ⟨hsettles, -⟩
    · obtain rfl := Option.some.inj hsettles
      obtain ⟨-, -, hstored⟩ := htracks.prepared.store ha
      rw [(hstored rfl).1]
      simp [LifecycleEvent.accepts]
    · cases hsettles
  | getUID hc =>
    rcases hres with hsettles | ⟨-, hres⟩
    · cases hsettles
    · obtain ⟨-, hframe⟩ := htracks.prepared.call hc
      rw [hframe]
      simpa [LifecycleEvent.accepts] using ih hres

/-- A call that returned was made with an allocator of the configured widths. -/
theorem packs_of_lifecycle (hrun : Lifecycles settings events s) {c : Call}
    {g' : DefaultUidGenerator} (hc : CallStep s.generator c g') {uid : ℤ}
    (hout : c.outcome = .ok uid) :
    ∃ L : Layout, settings.workerBits = L.w ∧ s.generator.epochSeconds = settings.epochSeconds ∧
      BitsAllocator.new settings.timeBits settings.workerBits settings.seqBits = .ok L.allocator ∧
      s.generator.bitsAllocator = some L.allocator ∧ Packs L s.generator c g' uid := by
  have htracks := tracks_run hrun
  rcases htracks.prepared with ⟨hnone, -⟩ | ⟨L, ht, hw, hs, hA, hframed⟩
  · obtain ⟨⟨e, herr⟩, -⟩ := call_of_none hnone hc
    simp [hout] at herr
  · refine ⟨L, htracks.config ▸ hw, by rw [htracks.config], ?_, hA,
      packs_of_returned hA hframed hc hout⟩
    rw [← htracks.config, ht, hw, hs, L.new_eq]

/-- The UID is not negative and reports the second it was issued at, the worker id and
the sequence. -/
def Reports (settings : Settings) (workerId : ℤ) (c : Call) (g' : DefaultUidGenerator) (uid : ℤ) :
    Prop :=
  ∃ A, BitsAllocator.new settings.timeBits settings.workerBits settings.seqBits = .ok A ∧ 0 ≤ uid ∧
    g'.lastSecond ∈ c.seconds ∧
    A.parse uid = ⟨g'.lastSecond - settings.epochSeconds, workerId, g'.sequence⟩

/-- The UIDs under an accepted worker id report it exactly when it is not negative, and
then those of different seconds differ. -/
theorem uids_report_worker_iff (settings : Settings) :
    (∀ (events : List LifecycleEvent) (s : Lifecycle) (c : Call) (g' : DefaultUidGenerator)
        (workerId uid : ℤ), Lifecycles settings events s → Resolved events →
      (accepted events).getLast? = some workerId → CallStep s.generator c g' →
      (∀ second ∈ c.seconds, settings.epochSeconds ≤ second) → c.outcome = .ok uid →
      (Reports settings workerId c g' uid ↔ 0 ≤ workerId)) ∧
    ∀ (c d : Call) (g g' : DefaultUidGenerator) (workerId workerId' uid uid' : ℤ),
      Reports settings workerId c g uid → Reports settings workerId' d g' uid' →
      g.lastSecond ≠ g'.lastSecond → uid ≠ uid' := by
  constructor
  · intro events s c g' workerId uid hrun hres hid hc hclock hout
    rw [workerId_of_resolved hrun hres, Option.some.injEq] at hid
    obtain ⟨L, hw, hepoch, hnew, hA, hpacks⟩ := packs_of_lifecycle hrun hc hout
    have hlt := ((tracks_run hrun).resolved hres).2.1
    rw [hw, Int.toNat_natCast, hid] at hlt
    constructor
    · rintro ⟨A, hnew', -, -, hparse⟩
      obtain rfl : A = L.allocator := Except.ok.inj (hnew'.symm.trans hnew)
      have hfield := congrArg UidFields.workerId hparse
      rw [L.parse_eq] at hfield
      simp only at hfield
      rw [← hfield]
      exact field_nonneg _ _ _
    · intro h0
      obtain ⟨hnonneg, -, hparse⟩ :=
        hpacks.reports (hid ▸ h0) (hid ▸ hlt) (hepoch ▸ hclock _ hpacks.read)
      rw [hepoch, hid] at hparse
      exact ⟨L.allocator, hnew, hnonneg, hpacks.read, hparse⟩
  · rintro c d g g' workerId workerId' uid _ ⟨A, hnew, -, -, hparse⟩ ⟨A', hnew', -, -, hparse'⟩
      hne rfl
    obtain rfl : A = A' := Except.ok.inj (hnew.symm.trans hnew')
    have hdelta := congrArg UidFields.deltaSeconds (hparse.symm.trans hparse')
    simp only at hdelta
    omega

/-- The id -1 passes the check, and its UIDs are negative and report another one. -/
theorem negative_id_accepted :
    ∃ (events : List LifecycleEvent) (s : Lifecycle) (c : Call) (g' : DefaultUidGenerator)
      (A : BitsAllocator) (uid : ℤ),
      Lifecycles oneBitTimestamps events s ∧ Resolved events ∧ accepted events = [-1] ∧
      CallStep s.generator c g' ∧
      (∀ second ∈ c.seconds, oneBitTimestamps.epochSeconds ≤ second) ∧ c.outcome = .ok uid ∧
      BitsAllocator.new oneBitTimestamps.timeBits oneBitTimestamps.workerBits
        oneBitTimestamps.seqBits = .ok A ∧ uid < 0 ∧
      A.parse uid = ⟨3, 2305843009213693951, 0⟩ := by
  let L : Layout := ⟨1, 61, 1, by decide, by decide, by decide, by decide⟩
  let g : DefaultUidGenerator :=
    { configured oneBitTimestamps with bitsAllocator := some L.allocator, workerId := -1 }
  have hstore : { g with workerId := 0 }.storeWorkerId (.ok (-1)) = (.ok (), g) := by
    have hmax : ¬(-1 : ℤ) > L.allocator.maxWorkerId := by decide
    simp only [storeWorkerId, g, if_neg hmax]
  have hrun : Lifecycles oneBitTimestamps [.build (.ok ()), .answer (.ok (-1)) (.ok ())] ⟨g, false⟩ :=
    .cons (.build rfl) (.cons (.answer hstore) .nil)
  obtain ⟨g', hcall⟩ : ∃ g', CallStep g ⟨[1000], .ok (-2)⟩ g' := by
    have hout : (g.getUID [1000]).map (fun x => (x.1, x.2.2)) = some (.ok (-2), []) := by
      decide +kernel
    obtain ⟨⟨out, g', rest⟩, hget, heq⟩ := Option.map_eq_some_iff.1 hout
    obtain ⟨rfl, rfl⟩ := Prod.mk.inj heq
    exact ⟨g', hget⟩
  exact ⟨_, _, _, g', L.allocator, -2, hrun, rfl, rfl, hcall, by decide, rfl, L.new_eq, by decide,
    by decide +kernel⟩

theorem uids_report_worker_five :
    ∃ (events : List LifecycleEvent) (s : Lifecycle) (c : Call) (g' : DefaultUidGenerator),
      Lifecycles oneBitTimestamps events s ∧ Resolved events ∧ CallStep s.generator c g' ∧
      Reports oneBitTimestamps 5 c g' 4611686018427387914 := by
  let g := ((configured oneBitTimestamps).afterPropertiesSet (.ok 5)).2
  have hrun : Lifecycles oneBitTimestamps [.build (.ok ()), .answer (.ok 5) (.ok ())] ⟨g, false⟩ :=
    .cons (.build rfl) (.cons (.answer rfl) .nil)
  have hcall : CallStep g ⟨[1000], .ok 4611686018427387914⟩ { g with lastSecond := 1 } := rfl
  exact ⟨_, _, _, _, hrun, rfl, hcall, ((uids_report_worker_iff oneBitTimestamps).1 _ _ _ _ 5 _ hrun
    rfl rfl hcall (by decide) rfl).2 (by decide)⟩

/-- The call throws, or returns a UID clear of the sign whose delta is that of the last
reading, the one it is issued at. -/
def InRange (settings : Settings) (c : Call) : Prop :=
  (∃ e, c.outcome = .error e) ∨
    ∃ A uid now, BitsAllocator.new settings.timeBits settings.workerBits settings.seqBits = .ok A ∧
      c.outcome = .ok uid ∧ c.readings.getLast? = some now ∧ 0 ≤ uid ∧ uid < 2 ^ 63 ∧
      (A.parse uid).deltaSeconds = toSeconds now - settings.epochSeconds

/-- The range check covers the top end only: a call that is not refused returns a UID in
range exactly when it is not issued before the epoch. -/
theorem returned_uids_in_range_iff (hrun : Lifecycles settings events s)
    (hw : 0 ≤ s.generator.workerId)
    (hw' : s.generator.workerId < 2 ^ settings.workerBits.toNat) {c : Call}
    {g' : DefaultUidGenerator} (hc : CallStep s.generator c g') :
    InRange settings c ↔ s.generator.Refuses c.readings ∨
      ∀ now, c.readings.getLast? = some now → settings.epochSeconds ≤ toSeconds now := by
  rw [← (tracks_run hrun).prepared.fails_iff hc]
  cases hout : c.outcome with
  | error e => exact iff_of_true (Or.inl ⟨e, hout⟩) (Or.inl ⟨e, rfl⟩)
  | ok uid =>
    obtain ⟨L, hwidth, hepoch, hnew, hA, hpacks⟩ := packs_of_lifecycle hrun hc hout
    rw [hwidth, Int.toNat_natCast] at hw'
    obtain ⟨now, hlast, hsecond⟩ := lastSecond_of_returned hA hc hout
    simp only [InRange, hout, hlast, reduceCtorEq, exists_false, false_or, Except.ok.injEq,
      Option.some.injEq, forall_eq']
    constructor
    · rintro ⟨A, _, _, hnew', rfl, rfl, -, -, hdelta⟩
      obtain rfl : A = L.allocator := Except.ok.inj (hnew'.symm.trans hnew)
      rw [L.parse_eq] at hdelta
      have hfield := field_nonneg (L.w + L.s) (L.t + 1) uid
      simp only at hdelta
      omega
    · intro hclock
      obtain ⟨h0, h63, hparse⟩ := hpacks.reports hw hw' (by rw [hepoch, hsecond]; exact hclock)
      refine ⟨L.allocator, uid, now, hnew, rfl, rfl, h0, h63, ?_⟩
      rw [hparse, hepoch, hsecond]

/-- A second before the default epoch, the check passes and the UID is negative. -/
theorem uid_before_epoch_negative :
    ∃ (settings : Settings) (events : List LifecycleEvent) (s : Lifecycle) (c : Call)
      (g' : DefaultUidGenerator) (uid : ℤ),
      settings.timeBits + settings.workerBits + settings.seqBits = 63 ∧
      Lifecycles settings events s ∧ Resolved events ∧ s.generator.workerId = 1 ∧
      CallStep s.generator c g' ∧ c.outcome = .ok uid ∧ uid < 0 ∧ ¬InRange settings c := by
  let g := ((configured {}).afterPropertiesSet (.ok 1)).2
  have hrun : Lifecycles {} [.build (.ok ()), .answer (.ok 1) (.ok ())] ⟨g, false⟩ :=
    .cons (.build rfl) (.cons (.answer rfl) .nil)
  obtain ⟨g', hcall⟩ : ∃ g', CallStep g ⟨[1463673599000], .ok (-34359730176)⟩ g' := by
    have hout : (g.getUID [1463673599000]).map (fun x => (x.1, x.2.2)) =
        some (.ok (-34359730176), []) := by
      decide +kernel
    obtain ⟨⟨out, g', rest⟩, hget, heq⟩ := Option.map_eq_some_iff.1 hout
    obtain ⟨rfl, rfl⟩ := Prod.mk.inj heq
    exact ⟨g', hget⟩
  refine ⟨{}, _, _, _, g', -34359730176, by decide, hrun, rfl, rfl, hcall, rfl, by decide, ?_⟩
  rintro (⟨e, he⟩ | ⟨_, uid, _, _, huid, _, h0, _⟩)
  · cases he
  · rw [← Except.ok.inj huid] at h0
    revert h0
    decide

theorem returned_uids_in_range_from_epoch :
    ∃ (events : List LifecycleEvent) (s : Lifecycle) (c : Call) (g' : DefaultUidGenerator),
      Lifecycles oneBitTimestamps events s ∧ CallStep s.generator c g' ∧ c.readings = [0] ∧
      InRange oneBitTimestamps c := by
  let g := ((configured oneBitTimestamps).afterPropertiesSet (.ok 5)).2
  have hrun : Lifecycles oneBitTimestamps [.build (.ok ()), .answer (.ok 5) (.ok ())] ⟨g, false⟩ :=
    .cons (.build rfl) (.cons (.answer rfl) .nil)
  have hcall : CallStep g ⟨[0], .ok 10⟩ { g with lastSecond := 0 } := rfl
  exact ⟨_, _, _, _, hrun, hcall, rfl,
    (returned_uids_in_range_iff hrun (by decide) (by decide) hcall).2 (Or.inr (by decide))⟩

end UID
