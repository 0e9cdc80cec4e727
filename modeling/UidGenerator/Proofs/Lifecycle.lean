import UidGenerator.Spec.Lifecycle
import UidGenerator.Proofs.Serial

/-! Calls of `getUID` in every state that initializations can reach: when a call
fails, what a failed call changes, and whose worker id a returned UID carries. -/

namespace UID

open BitField Transition DefaultUidGenerator

namespace DefaultUidGenerator

variable {g g' : DefaultUidGenerator} {c : Call}

/-- An allocator has the configured layout, and the sequence fits into its field. -/
def Prepared (g : DefaultUidGenerator) : Prop :=
  g.bitsAllocator = none ∧ g.sequence = 0 ∨
    ∃ L : Layout, g.timeBits = L.t ∧ g.workerBits = L.w ∧ g.seqBits = L.s ∧
      g.bitsAllocator = some L.allocator ∧ Framed L g g

/-- There is no allocator, or the readings are refused: the first is past the range
or before the last second, or the wait that follows it runs past the range. -/
def Refuses (g : DefaultUidGenerator) (readings : List ℤ) : Prop :=
  ∀ A, g.bitsAllocator = some A → ∃ now rest, readings = now :: rest ∧
    (g.PastRange A now ∨ toSeconds now < g.lastSecond ∨ g.WaitsPastRange A readings)

theorem call_of_none (hA : g.bitsAllocator = none) (h : CallStep g c g') :
    (∃ e, c.outcome = .error e) ∧ g' = g := by
  obtain ⟨readings, outcome⟩ := c
  unfold CallStep getUID at h
  cases readings with
  | nil => simp [nextId] at h
  | cons now clock =>
    simp only [nextId, hA, Option.some.injEq, Prod.mk.injEq] at h
    obtain ⟨hout, rfl, -⟩ := h
    exact ⟨⟨_, hout.symm⟩, rfl⟩

theorem callStep_functional {g₁ g₂ : DefaultUidGenerator} (h₁ : CallStep g c g₁)
    (h₂ : CallStep g c g₂) : g₁ = g₂ := by
  unfold CallStep at h₁ h₂
  rw [h₁] at h₂
  simpa using h₂

theorem Prepared.call (hg : Prepared g) (h : CallStep g c g') :
    Prepared g' ∧ g' = { g with sequence := g'.sequence, lastSecond := g'.lastSecond } := by
  rcases hg with ⟨hnone, hseq⟩ | ⟨L, ht, hw, hs, hA, hframed⟩
  · obtain ⟨-, rfl⟩ := call_of_none hnone h
    exact ⟨Or.inl ⟨hnone, hseq⟩, rfl⟩
  · obtain ⟨hframe, h0, hlt⟩ := hframed.call hA h
    refine ⟨Or.inr ⟨L, ?_, ?_, ?_, ?_, rfl, h0, hlt⟩, hframe⟩ <;> rw [hframe] <;> assumption

/-- What a finished call returns, and exactly when it fails. -/
theorem Prepared.fails_iff (hg : Prepared g) (h : CallStep g c g') :
    (∃ e, c.outcome = .error e) ↔ g.Refuses c.readings := by
  rcases hg with ⟨hnone, -⟩ | ⟨L, -, -, -, hA, hframed⟩
  · exact iff_of_true (call_of_none hnone h).1 (by simp [Refuses, hnone])
  · simp only [Refuses, hA, Option.some.injEq, forall_eq']
    cases call_cases hA h with
    | refused now e hreadings hrefusal hout =>
      refine iff_of_true ⟨e, hout⟩ ⟨now, [], hreadings, ?_⟩
      rcases hrefusal with hpast | hback
      · exact Or.inl hpast
      · exact Or.inr (Or.inl hback)
    | issued second sequence hread hcurrent hrange hnext hout =>
      apply iff_of_false (by simp [hout])
      rintro ⟨now, rest, hreadings, hpast | hback | ⟨_, _, hwait, -, -, r, hr, hpast⟩⟩
      · exact hrange now (by simp [hreadings]) hpast
      · have := hcurrent now (by simp [hreadings])
        omega
      · exact hrange r (by rw [hwait]; exact List.mem_cons_of_mem _ hr) hpast
    | exhausted now waited last hreadings hcurrent hwrap hpast hout =>
      refine iff_of_true ⟨_, hout⟩ ⟨now, waited ++ [last], hreadings, Or.inr (Or.inr ?_)⟩
      exact ⟨now, waited ++ [last], hreadings, hcurrent,
        (wraps_iff hframed.sequence_nonneg hframed.sequence_lt).1 hwrap, last, by simp, hpast⟩

theorem Prepared.returns (hg : Prepared g) (h : CallStep g c g') (hc : ¬g.Refuses c.readings) :
    ∃ uid, c.outcome = .ok uid := by
  rw [← hg.fails_iff h] at hc
  cases hout : c.outcome with
  | error e => exact absurd ⟨e, hout⟩ hc
  | ok uid => exact ⟨uid, rfl⟩

/-- A failed call keeps both fields unless it fails while it waits. -/
theorem Prepared.failure_keeps_iff (hg : Prepared g) (h : CallStep g c g') :
    ((∃ e, c.outcome = .error e) → g'.lastSecond = g.lastSecond ∧ g'.sequence = g.sequence) ↔
      ∀ A, g.bitsAllocator = some A → ¬g.WaitsPastRange A c.readings := by
  rcases hg with ⟨hnone, -⟩ | ⟨L, -, -, -, hA, hframed⟩
  · obtain ⟨-, rfl⟩ := call_of_none hnone h
    simp [hnone]
  · simp only [hA, Option.some.injEq, forall_eq']
    constructor
    · intro hkeeps hwaits
      obtain ⟨⟨now, hout⟩, hg'⟩ := exhausted_of_waits hA h hwaits
      obtain ⟨-, hseq⟩ := hkeeps ⟨_, hout⟩
      obtain ⟨-, -, -, -, hfull, -⟩ := hwaits
      have hpos : (2 : ℤ) ^ 1 ≤ 2 ^ L.s := pow_le_pow_right₀ (by norm_num) L.s_pos
      rw [hg', hfull] at hseq
      simp only [Layout.allocator] at hseq
      omega
    · rintro hwaits ⟨e, herr⟩
      cases call_cases hA h with
      | refused => exact ⟨rfl, rfl⟩
      | issued _ _ _ _ _ _ hout => simp [hout] at herr
      | exhausted now waited last hreadings hcurrent hwrap hpast hout =>
        exact absurd ⟨now, waited ++ [last], hreadings, hcurrent,
          (wraps_iff hframed.sequence_nonneg hframed.sequence_lt).1 hwrap, last, by simp, hpast⟩
          hwaits

theorem workerId_of_returned {L : Layout} (hA : g.bitsAllocator = some L.allocator)
    (hframed : Framed L g g) (h : CallStep g c g') {uid : ℤ} (hout : c.outcome = .ok uid) :
    (L.allocator.parse uid).workerId = g.workerId % 2 ^ L.w := by
  have hseq := hframed.call hA h
  cases call_cases hA h with
  | refused _ _ _ _ herr => simp [hout] at herr
  | exhausted _ _ _ _ _ _ _ herr => simp [hout] at herr
  | issued second sequence _ _ _ _ hok =>
    rw [hout, Except.ok.injEq] at hok
    rw [hok, L.parse_allocate _ _ hseq.sequence_nonneg hseq.sequence_lt]
    exact field_zero_low L.w g.workerId

theorem Prepared.build {outcome : Except Throwable Unit} (hg : Prepared g)
    (h : g.buildAllocator = (outcome, g')) :
    Prepared g' ∧ g' = { g with bitsAllocator := g'.bitsAllocator } ∧
      (outcome = .ok () → g'.bitsAllocator ≠ none) := by
  cases hout : outcome with
  | error e =>
    unfold buildAllocator at h
    cases hA : BitsAllocator.new g.timeBits g.workerBits g.seqBits with
    | error e' =>
      simp only [hA, Prod.mk.injEq] at h
      obtain ⟨-, rfl⟩ := h
      exact ⟨hg, rfl, by simp⟩
    | ok A => simp [hA, hout] at h
  | ok _ =>
    rw [hout] at h
    obtain ⟨L, ht, hw, hs, rfl⟩ := buildAllocator_ok h
    have hseq : 0 ≤ g.sequence ∧ g.sequence < 2 ^ L.s := by
      rcases hg with ⟨-, hzero⟩ | ⟨L', -, -, hs', -, hframed⟩
      · exact ⟨hzero.ge, hzero.trans_lt (by positivity)⟩
      · have hL : L'.s = L.s := by
          have := hs'.symm.trans hs
          omega
        exact ⟨hframed.sequence_nonneg, hL ▸ hframed.sequence_lt⟩
    exact ⟨Or.inr ⟨L, ht, hw, hs, rfl, rfl, hseq.1, hseq.2⟩, rfl, by simp⟩

/-- The answer is stored whatever the check says about it. -/
theorem storeWorkerId_state (g : DefaultUidGenerator) (workerId : ℤ) :
    (g.storeWorkerId (.ok workerId)).2 = { g with workerId := workerId } := by
  unfold storeWorkerId
  cases hA : g.bitsAllocator with
  | none => rfl
  | some A =>
    simp only
    split_ifs <;> rfl

theorem Prepared.store {assigned : Except Throwable ℤ} {outcome : Except Throwable Unit}
    (hg : Prepared g) (h : g.storeWorkerId assigned = (outcome, g')) :
    Prepared g' ∧ g' = { g with workerId := g'.workerId } ∧
      (outcome = .ok () →
        assigned = .ok g'.workerId ∧ g'.workerId < 2 ^ g.workerBits.toNat) := by
  cases assigned with
  | error e =>
    simp only [storeWorkerId, Prod.mk.injEq] at h
    obtain ⟨rfl, rfl⟩ := h
    exact ⟨hg, rfl, by simp⟩
  | ok workerId =>
    have hg' : g' = { g with workerId := workerId } := by rw [← storeWorkerId_state, h]
    subst hg'
    rcases hg with hnone | ⟨L, ht, hw, hs, hA, -, h0, hlt⟩
    · refine ⟨Or.inl hnone, rfl, fun hok => ?_⟩
      simp [storeWorkerId, hnone.1, hok] at h
    · refine ⟨Or.inr ⟨L, ht, hw, hs, hA, rfl, h0, hlt⟩, rfl, fun hok => ?_⟩
      rw [hok] at h
      obtain ⟨_, ⟨⟩, hmax, -⟩ := storeWorkerId_ok hA h
      rw [hw, Int.toNat_natCast]
      exact ⟨rfl, Int.lt_of_le_sub_one hmax⟩

end DefaultUidGenerator

section Lifecycle

variable {settings : Settings} {events : List LifecycleEvent} {s s' : Lifecycle}

theorem resolved_snoc (events : List LifecycleEvent) (e : LifecycleEvent) :
    Resolved (events ++ [e]) ↔ e.settles = some (.ok ()) ∨ e.settles = none ∧ Resolved events := by
  unfold Resolved
  rw [filterMap_snoc]
  cases e.settles <;> simp

theorem accepted_snoc (events : List LifecycleEvent) (e : LifecycleEvent) :
    accepted (events ++ [e]) = accepted events ++ e.accepts.toList :=
  filterMap_snoc _ _ _

structure Tracks (settings : Settings) (events : List LifecycleEvent) (s : Lifecycle) : Prop where
  config : s.generator.toSettings = settings
  prepared : s.generator.Prepared
  awaits : s.awaitsWorkerId = true → s.generator.bitsAllocator ≠ none
  resolved : Resolved events → s.generator.bitsAllocator ≠ none ∧
    s.generator.workerId < 2 ^ settings.workerBits.toNat ∧ s.generator.workerId ∈ accepted events

theorem Tracks.step (h : Tracks settings events s) {e : LifecycleEvent}
    (hstep : LifecycleStep s e s') : Tracks settings (events ++ [e]) s' := by
  obtain ⟨hcfg, hprep, hawaits, hres⟩ := h
  cases hstep with
  | @build g g' outcome hb =>
    obtain ⟨hprep', hframe, halloc⟩ := hprep.build hb
    refine ⟨by rw [hframe]; exact hcfg, hprep', ?_, ?_⟩
    · intro hok
      cases outcome with
      | error e => simp [Except.isOk, Except.toBool] at hok
      | ok _ => exact halloc rfl
    · intro hr
      cases outcome with
      | error e => simp [resolved_snoc, LifecycleEvent.settles] at hr
      | ok _ =>
        have hr' : Resolved events := by simpa [resolved_snoc, LifecycleEvent.settles] using hr
        refine ⟨halloc rfl, ?_⟩
        rw [hframe, accepted_snoc]
        exact ⟨(hres hr').2.1, List.mem_append_left _ (hres hr').2.2⟩
  | @answer g g' assigned outcome ha =>
    obtain ⟨hprep', hframe, hstored⟩ := hprep.store ha
    refine ⟨by rw [hframe]; exact hcfg, hprep', by simp, fun hr => ?_⟩
    have hok : outcome = .ok () := by simpa [resolved_snoc, LifecycleEvent.settles] using hr
    obtain ⟨hassigned, hmax⟩ := hstored hok
    rw [hassigned, hok, accepted_snoc]
    exact ⟨by rw [hframe]; exact hawaits rfl, hcfg ▸ hmax, by simp [LifecycleEvent.accepts]⟩
  | @getUID g g' awaits c hc =>
    obtain ⟨hprep', hframe⟩ := hprep.call hc
    refine ⟨by rw [hframe]; exact hcfg, hprep', by rw [hframe]; exact hawaits, fun hr => ?_⟩
    have hr' : Resolved events := by simpa [resolved_snoc, LifecycleEvent.settles] using hr
    rw [hframe, accepted_snoc]
    exact ⟨(hres hr').1, (hres hr').2.1, List.mem_append_left _ (hres hr').2.2⟩

theorem tracks_run (hrun : Lifecycles settings events s) : Tracks settings events s :=
  hrun.invariant (Tracks settings)
    ⟨rfl, Or.inl ⟨rfl, rfl⟩, by simp, by simp [Resolved]⟩ fun _ _ _ _ _ h hstep => h.step hstep

theorem Tracks.new_of_alloc (h : Tracks settings events s)
    (halloc : s.generator.bitsAllocator ≠ none) :
    ∃ A, BitsAllocator.new settings.timeBits settings.workerBits settings.seqBits = .ok A := by
  rcases h.prepared with ⟨hnone, -⟩ | ⟨L, ht, hw, hs, -, -⟩
  · exact absurd hnone halloc
  · exact ⟨L.allocator, by rw [← h.config, ht, hw, hs, L.new_eq]⟩

/-- The worker field of a returned UID holds the low bits of the stored id. -/
theorem Tracks.workerId_of_returned {g g' : DefaultUidGenerator} {awaits : Bool}
    (h : Tracks settings events ⟨g, awaits⟩) {A : BitsAllocator}
    (hA : BitsAllocator.new settings.timeBits settings.workerBits settings.seqBits = .ok A)
    {c : Call} (hc : CallStep g c g') {uid : ℤ} (hout : c.outcome = .ok uid) :
    (A.parse uid).workerId = g.workerId % 2 ^ settings.workerBits.toNat := by
  rcases h.prepared with ⟨hnone, -⟩ | ⟨L, ht, hw, hs, halloc, hframed⟩
  · obtain ⟨⟨e, herr⟩, -⟩ := call_of_none hnone hc
    simp [hout] at herr
  · simp only at ht hw hs
    rw [← h.config, ht, hw, hs, L.new_eq] at hA
    rw [← Except.ok.inj hA, DefaultUidGenerator.workerId_of_returned halloc hframed hc hout,
      ← h.config, hw, Int.toNat_natCast]

theorem lifecycleStep_functional (s : Lifecycle) (e : LifecycleEvent) (s₁ s₂ : Lifecycle)
    (h₁ : LifecycleStep s e s₁) (h₂ : LifecycleStep s e s₂) : s₁ = s₂ := by
  cases h₁ with
  | build h₁ => cases h₂ with
    | build h₂ => rw [(Prod.mk.inj (h₁.symm.trans h₂)).2]
  | answer h₁ => cases h₂ with
    | answer h₂ => rw [(Prod.mk.inj (h₁.symm.trans h₂)).2]
  | getUID h₁ => cases h₂ with
    | getUID h₂ => rw [callStep_functional h₁ h₂]

/-- A failed call keeps `lastSecond` and `sequence` unless it starts in a second
whose sequence is used up and fails while it waits for the next; in runs without
such a call no UID is returned twice. -/
theorem failed_calls_keep_state (settings : Settings) :
    (∀ (events : List LifecycleEvent) (s : Lifecycle) (c : Call) (g' : DefaultUidGenerator),
      Lifecycles settings events s → CallStep s.generator c g' →
        (((∃ e, c.outcome = .error e) →
            g'.lastSecond = s.generator.lastSecond ∧ g'.sequence = s.generator.sequence) ↔
          ∀ A, s.generator.bitsAllocator = some A →
            ¬s.generator.WaitsPastRange A c.readings)) ∧
    ∀ (workerId : ℤ) (g₁ g : DefaultUidGenerator) (A : BitsAllocator) (calls : List Call),
      (configured settings).afterPropertiesSet (.ok workerId) = (.ok (), g₁) →
      g₁.bitsAllocator = some A →
      workerId / (A.maxWorkerId + 1) % (A.maxDeltaSeconds + 1) = 0 → Calls g₁ calls g →
      (∀ c ∈ calls, ∀ second ∈ c.seconds, settings.epochSeconds ≤ second) →
      (∀ pre c post mid, calls = pre ++ c :: post → Calls g₁ pre mid →
        ¬mid.WaitsPastRange A c.readings) →
      (returned calls).Nodup := by
  constructor
  · intro events s c g' hrun hstep
    exact (tracks_run hrun).prepared.failure_keeps_iff hstep
  · intro workerId g₁ g A calls hinit hA hclear hrun hepoch hwait
    obtain ⟨L, hready⟩ := ready_of_init hinit
    obtain rfl : A = L.allocator := Option.some.inj (hA.symm.trans hready.bitsAllocator)
    rw [← hready.settings] at hepoch
    obtain ⟨stamps, hissued, -⟩ := issued_run hA hready.sequence hready.lastSecond hrun hepoch
      (fun pre c post mid _ heq hpre _ => hwait pre c post mid heq hpre)
    apply hissued.nodup
    rw [hready.workerId]
    simpa [Layout.allocator, field] using hclear

def oneBitTimestamps : Settings where
  timeBits := 1
  workerBits := 61
  seqBits := 1
  epochSeconds := 0
  timeBits_pos := Int.one_pos
  seqBits_pos := Int.one_pos

/-- A call refused for the clock changes nothing, and the next UID is new. -/
theorem failed_calls_keep_state_backwards :
    ∃ (g₁ g₂ g : DefaultUidGenerator) (c : Call),
      (configured oneBitTimestamps).afterPropertiesSet (.ok 0) = (.ok (), g₁) ∧
      Calls g₁ [⟨[1000], .ok 4611686018427387904⟩] g₂ ∧ CallStep g₂ c g ∧
      c.outcome = .error (.uidGenerateCause (clockMovedBackwards 1)) ∧
      g.lastSecond = g₂.lastSecond ∧ g.sequence = g₂.sequence ∧
      (returned [⟨[1000], .ok 4611686018427387904⟩, c,
        ⟨[1000], .ok 4611686018427387905⟩]).Nodup := by
  let g₁ := ((configured oneBitTimestamps).afterPropertiesSet (.ok 0)).2
  let first : Call := ⟨[1000], .ok 4611686018427387904⟩
  let c : Call := ⟨[999], .error (.uidGenerateCause (clockMovedBackwards 1))⟩
  let g₂ : DefaultUidGenerator := { g₁ with lastSecond := 1 }
  have hinit : (configured oneBitTimestamps).afterPropertiesSet (.ok 0) = (.ok (), g₁) := rfl
  have hfirst : CallStep g₁ first g₂ := rfl
  have hstep : CallStep g₂ c g₂ := rfl
  have hstart : Lifecycles oneBitTimestamps [.build (.ok ()), .answer (.ok 0) (.ok ()),
      .getUID first] ⟨g₂, false⟩ :=
    .cons (.build rfl) (.cons (.answer rfl) (.cons (.getUID hfirst) .nil))
  have hwaits : ∀ A, g₂.bitsAllocator = some A → ¬g₂.WaitsPastRange A c.readings := by
    rintro A - ⟨now, rest, hreadings, hnow, -⟩
    obtain ⟨rfl, -⟩ := List.cons.inj hreadings
    exact absurd hnow (by decide)
  obtain ⟨hlast, hseq⟩ :=
    ((failed_calls_keep_state oneBitTimestamps).1 _ _ c g₂ hstart hstep).2 hwaits ⟨_, rfl⟩
  refine ⟨g₁, g₂, g₂, c, hinit, .cons hfirst .nil, hstep, rfl, hlast, hseq, ?_⟩
  refine (failed_calls_keep_state oneBitTimestamps).2 0 g₁ { g₂ with sequence := 1 } _ _ hinit rfl
    (by decide) (.cons hfirst (.cons hstep (.cons rfl .nil))) (by decide) ?_
  rintro pre d post mid heq - ⟨now, rest, hreadings, -, -, r, hr, -⟩
  have hd : d ∈ [first, c, ⟨[1000], .ok 4611686018427387905⟩] := heq ▸ by simp
  simp only [List.mem_cons, List.not_mem_nil, or_false] at hd
  rcases hd with rfl | rfl | rfl <;> obtain ⟨-, rfl⟩ := List.cons.inj hreadings <;> simp at hr

/-- The third call waits out of the range: it resets the sequence, and the fourth
call returns the UID of the second again. -/
theorem failed_call_repeats_uid :
    ∃ (g₁ g₂ g₃ g : DefaultUidGenerator) (calls : List Call) (c d : Call),
      (configured oneBitTimestamps).afterPropertiesSet (.ok 0) = (.ok (), g₁) ∧
      Calls g₁ calls g₂ ∧ CallStep g₂ c g₃ ∧ CallStep g₃ d g ∧
      (∀ b ∈ calls ++ [c, d], ∀ second ∈ b.seconds, oneBitTimestamps.epochSeconds ≤ second) ∧
      c.outcome = .error (.uidGenerateCause (timestampBitsExhausted 2)) ∧
      g₃.sequence ≠ g₂.sequence ∧ ∃ uid ∈ returned calls, d.outcome = .ok uid := by
  let g₁ := ((configured oneBitTimestamps).afterPropertiesSet (.ok 0)).2
  let calls : List Call := [⟨[1000], .ok 4611686018427387904⟩, ⟨[1000], .ok 4611686018427387905⟩]
  let c : Call := ⟨[1000, 2000], .error (.uidGenerateCause (timestampBitsExhausted 2))⟩
  let d : Call := ⟨[1000], .ok 4611686018427387905⟩
  let g₂ : DefaultUidGenerator := { g₁ with lastSecond := 1, sequence := 1 }
  let g₃ : DefaultUidGenerator := { g₁ with lastSecond := 1, sequence := 0 }
  have hrun : Calls g₁ calls g₂ := .cons rfl (.cons rfl .nil)
  exact ⟨g₁, g₂, g₃, g₂, calls, c, d, rfl, hrun, rfl, rfl, by decide, rfl, by decide, _,
    by decide, rfl⟩

/-- A UID is only returned after an initialization resolved, under one of the
accepted ids, if and only if every call that is not refused meets that state with
an id that is not negative, or whose low bits form an accepted id. -/
theorem returned_uids_carry_accepted_id (hrun : Lifecycles settings events s) :
    (∀ pre c post uid, events = pre ++ .getUID c :: post → c.outcome = .ok uid →
      Resolved pre ∧ ∃ A, BitsAllocator.new settings.timeBits settings.workerBits
        settings.seqBits = .ok A ∧ (A.parse uid).workerId ∈ accepted pre) ↔
    ∀ pre c post mid, events = pre ++ .getUID c :: post → Lifecycles settings pre mid →
      mid.generator.Refuses c.readings ∨
        Resolved pre ∧ (0 ≤ mid.generator.workerId ∨
          mid.generator.workerId % 2 ^ settings.workerBits.toNat ∈ accepted pre) := by
  constructor
  · intro hgood pre c post mid heq hpre
    subst heq
    obtain ⟨mid', _, hpre', hstep, -⟩ := hrun.split
    obtain rfl := hpre.functional lifecycleStep_functional hpre'
    have htracks := tracks_run hpre
    cases hstep with
    | @getUID g g' awaits c hc =>
      by_cases hrefuses : g.Refuses c.readings
      · exact Or.inl hrefuses
      right
      obtain ⟨uid, hout⟩ := htracks.prepared.returns hc hrefuses
      obtain ⟨hres, A, hA, hmem⟩ := hgood pre c post uid rfl hout
      refine ⟨hres, Or.inr ?_⟩
      rwa [htracks.workerId_of_returned hA hc hout] at hmem
  · intro hcond pre c post uid heq hout
    subst heq
    obtain ⟨mid, _, hpre, hstep, -⟩ := hrun.split
    have htracks := tracks_run hpre
    cases hstep with
    | getUID hc =>
      rcases hcond pre c post _ rfl hpre with hrefuses | ⟨hres, hid⟩
      · obtain ⟨e, herr⟩ := (htracks.prepared.fails_iff hc).2 hrefuses
        simp [hout] at herr
      obtain ⟨halloc, hlt, hmem⟩ := htracks.resolved hres
      obtain ⟨A, hA⟩ := htracks.new_of_alloc halloc
      refine ⟨hres, A, hA, ?_⟩
      rw [htracks.workerId_of_returned hA hc hout]
      rcases hid with h0 | hbits
      · rwa [Int.emod_eq_of_lt h0 hlt]
      · exact hbits

theorem returned_uids_carry_accepted_id_reinit :
    ∃ (events : List LifecycleEvent) (s : Lifecycle) (A : BitsAllocator),
      Lifecycles oneBitTimestamps
        (events ++ [.getUID ⟨[1000], .ok 4611686018427387918⟩]) s ∧ s.awaitsWorkerId = true ∧
      Resolved events ∧ (A.parse 4611686018427387918).workerId ∈ accepted events := by
  let c : Call := ⟨[1000], .ok 4611686018427387918⟩
  let before : List LifecycleEvent := [.build (.ok ()), .answer (.ok 7) (.ok ()), .build (.ok ())]
  let g := ((configured oneBitTimestamps).afterPropertiesSet (.ok 7)).2
  have hbefore : Lifecycles oneBitTimestamps before ⟨g, true⟩ :=
    .cons (.build rfl) (.cons (.answer rfl) (.cons (.build rfl) .nil))
  have hrun : Lifecycles oneBitTimestamps (before ++ [.getUID c]) _ := hbefore.snoc (.getUID rfl)
  have hready : ∀ pre d post mid, before ++ [.getUID c] = pre ++ .getUID d :: post →
      Lifecycles oneBitTimestamps pre mid → mid.generator.Refuses d.readings ∨
        Resolved pre ∧ (0 ≤ mid.generator.workerId ∨
          mid.generator.workerId % 2 ^ oneBitTimestamps.workerBits.toNat ∈ accepted pre) := by
    rintro (_ | ⟨_, _ | ⟨_, _ | ⟨_, _ | ⟨_, pre⟩⟩⟩⟩) d post mid heq hpre <;>
      simp only [before, List.cons_append, List.nil_append, List.cons.injEq, reduceCtorEq, and_false,
        false_and] at heq
    · obtain ⟨rfl, rfl, rfl, -⟩ := heq
      obtain rfl := hpre.functional lifecycleStep_functional hbefore
      exact Or.inr ⟨rfl, Or.inl (by decide)⟩
    · simp at heq
  obtain ⟨hres, A, -, hmem⟩ :=
    (returned_uids_carry_accepted_id hrun).2 hready before c [] _ rfl rfl
  exact ⟨before, _, A, hrun, rfl, hres, hmem⟩

/-- While the first initialization waits for its answer, UIDs carry worker id 0. -/
theorem uid_returned_before_assignment :
    ∃ (events : List LifecycleEvent) (s : Lifecycle) (c : Call) (uid : ℤ) (A : BitsAllocator),
      Lifecycles oneBitTimestamps (events ++ [.getUID c]) s ∧ c.outcome = .ok uid ∧
      ¬Resolved events ∧ accepted events = [] ∧
      BitsAllocator.new oneBitTimestamps.timeBits oneBitTimestamps.workerBits
        oneBitTimestamps.seqBits = .ok A ∧ (A.parse uid).workerId = 0 := by
  let L : Layout := ⟨1, 61, 1, by decide, by decide, by decide, by decide⟩
  let c : Call := ⟨[1000], .ok 4611686018427387904⟩
  have hrun : Lifecycles oneBitTimestamps ([.build (.ok ())] ++ [.getUID c]) _ :=
    .cons (.build rfl) (.cons (.getUID rfl) .nil)
  exact ⟨[.build (.ok ())], _, c, 4611686018427387904, L.allocator, hrun, rfl,
    by simp [Resolved, LifecycleEvent.settles], rfl, L.new_eq, by decide⟩

end Lifecycle

end UID
