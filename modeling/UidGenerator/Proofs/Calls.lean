import UidGenerator.Spec.DefaultUidGenerator
import UidGenerator.Proofs.Layout

/-! What one finished `getUID` call of a `DefaultUidGenerator` can do. Every claim
about its runs starts from `call_cases`, so no later proof unfolds `nextId`. -/

namespace UID.DefaultUidGenerator

open Transition

def PastRange (g : DefaultUidGenerator) (A : BitsAllocator) (now : ℤ) : Prop :=
  toSeconds now - g.epochSeconds > A.maxDeltaSeconds

theorem getCurrentSecond_pastRange {g : DefaultUidGenerator} {A : BitsAllocator} {now : ℤ}
    (h : g.PastRange A now) :
    g.getCurrentSecond A now = .error (timestampBitsExhausted (toSeconds now)) :=
  if_pos h

theorem getCurrentSecond_inRange {g : DefaultUidGenerator} {A : BitsAllocator} {now : ℤ}
    (h : ¬g.PastRange A now) : g.getCurrentSecond A now = .ok (toSeconds now) :=
  if_neg h

/-- The wait stops at its first reading that is past `lastTimestamp` or past the range. -/
theorem getNextSecond_cases {g : DefaultUidGenerator} {A : BitsAllocator} {lastTimestamp : ℤ}
    {clock rest : List ℤ} {out : Except Throwable ℤ}
    (h : g.getNextSecond A lastTimestamp clock = some (out, rest)) :
    ∃ waited now, clock = waited ++ now :: rest ∧ (∀ r ∈ waited, ¬g.PastRange A r) ∧
      (g.PastRange A now ∧ out = .error (timestampBitsExhausted (toSeconds now)) ∨
        ¬g.PastRange A now ∧ lastTimestamp < toSeconds now ∧ out = .ok (toSeconds now)) := by
  induction clock with
  | nil => simp [getNextSecond] at h
  | cons now clock ih =>
    by_cases hpast : g.PastRange A now
    · simp only [getNextSecond, getCurrentSecond_pastRange hpast, Option.some.injEq,
        Prod.mk.injEq] at h
      obtain ⟨rfl, rfl⟩ := h
      exact ⟨[], now, rfl, by simp, Or.inl ⟨hpast, rfl⟩⟩
    · simp only [getNextSecond, getCurrentSecond_inRange hpast] at h
      split_ifs at h with hle
      · obtain ⟨waited, last, hclock, hwaited, hout⟩ := ih h
        refine ⟨now :: waited, last, by rw [hclock]; rfl, ?_, hout⟩
        intro r hr
        rcases List.mem_cons.1 hr with rfl | hr
        · exact hpast
        · exact hwaited r hr
      · simp only [Option.some.injEq, Prod.mk.injEq] at h
        obtain ⟨rfl, rfl⟩ := h
        exact ⟨[], now, rfl, by simp, Or.inr ⟨hpast, by omega, rfl⟩⟩

/-- One finished call: it is refused at its first reading, it issues a UID, or it
meets the end of the range while it waits for a second after the current one. -/
inductive CallCases (g : DefaultUidGenerator) (A : BitsAllocator) (c : Call) :
    DefaultUidGenerator → Prop
  | refused (now : ℤ) (e : Throwable) (readings : c.readings = [now])
      (refusal : g.PastRange A now ∨ toSeconds now < g.lastSecond)
      (outcome : c.outcome = .error e) : CallCases g A c g
  | issued (second sequence : ℤ) (read : second ∈ c.seconds)
      (current : ∀ now ∈ c.readings.head?, g.lastSecond ≤ toSeconds now)
      (inRange : ∀ now ∈ c.readings, ¬g.PastRange A now)
      (next : g.lastSecond < second ∧ sequence = 0 ∨
        second = g.lastSecond ∧ sequence ≠ 0 ∧ sequence = and (g.sequence + 1) A.maxSequence)
      (outcome : c.outcome =
        .ok (A.allocate (subtract second g.epochSeconds) g.workerId sequence)) :
      CallCases g A c { g with sequence := sequence, lastSecond := second }
  | exhausted (now : ℤ) (waited : List ℤ) (last : ℤ)
      (readings : c.readings = now :: waited ++ [last]) (current : toSeconds now = g.lastSecond)
      (wrapped : and (g.sequence + 1) A.maxSequence = 0) (past : g.PastRange A last)
      (outcome : c.outcome = .error (.uidGenerateCause (timestampBitsExhausted (toSeconds last)))) :
      CallCases g A c { g with sequence := 0 }

theorem call_cases {g g' : DefaultUidGenerator} {A : BitsAllocator} {c : Call}
    (hA : g.bitsAllocator = some A) (h : CallStep g c g') : CallCases g A c g' := by
  obtain ⟨readings, outcome⟩ := c
  unfold CallStep getUID at h
  cases readings with
  | nil => simp [nextId] at h
  | cons now clock =>
    simp only [nextId, hA] at h
    unfold nextIdAt at h
    by_cases hpast : g.PastRange A now
    · simp only [getCurrentSecond_pastRange hpast, Option.some.injEq, Prod.mk.injEq] at h
      obtain ⟨rfl, rfl, rfl⟩ := h
      exact .refused now _ rfl (Or.inl hpast) rfl
    simp only [getCurrentSecond_inRange hpast] at h
    by_cases hback : toSeconds now < g.lastSecond
    · simp only [hback, if_true, Option.some.injEq, Prod.mk.injEq] at h
      obtain ⟨rfl, rfl, rfl⟩ := h
      exact .refused now _ rfl (Or.inr hback) rfl
    simp only [hback, if_false] at h
    have hcurrent : ∀ r ∈ (now :: clock).head?, g.lastSecond ≤ toSeconds r := by simpa using hback
    by_cases hsame : toSeconds now = g.lastSecond
    · simp only [hsame, if_true] at h
      by_cases hwrap : and (g.sequence + 1) A.maxSequence = 0
      · simp only [hwrap, if_true] at h
        cases hwait : getNextSecond { g with sequence := 0 } A g.lastSecond clock with
        | none => simp [hwait] at h
        | some r =>
          obtain ⟨out, rest⟩ := r
          obtain ⟨waited, last, hclock, hwaited, hout⟩ := getNextSecond_cases hwait
          rcases hout with ⟨hlast, rfl⟩ | ⟨hlast, hlt, rfl⟩
          · simp only [hwait, Option.some.injEq, Prod.mk.injEq] at h
            obtain ⟨rfl, rfl, rfl⟩ := h
            exact .exhausted now waited last (by rw [hclock]; rfl) hsame hwrap hlast rfl
          · simp only [hwait, issue, Option.some.injEq, Prod.mk.injEq] at h
            obtain ⟨rfl, rfl, rfl⟩ := h
            refine .issued (toSeconds last) 0 ?_ hcurrent ?_ (Or.inl ⟨hlt, rfl⟩) rfl
            · simp [Call.seconds, hclock]
            · intro r hr
              simp only [hclock, List.mem_cons, List.mem_append, List.not_mem_nil, or_false] at hr
              rcases hr with rfl | hr | rfl
              · exact hpast
              · exact hwaited r hr
              · exact hlast
      · simp only [hwrap, if_false, issue, Option.some.injEq, Prod.mk.injEq] at h
        obtain ⟨rfl, rfl, rfl⟩ := h
        refine .issued g.lastSecond _ ?_ hcurrent ?_ (Or.inr ⟨rfl, hwrap, rfl⟩) rfl
        · simp [Call.seconds, hsame]
        · simpa using hpast
    · simp only [hsame, if_false, issue, Option.some.injEq, Prod.mk.injEq] at h
      obtain ⟨rfl, rfl, rfl⟩ := h
      have hlt : g.lastSecond < toSeconds now := by omega
      refine .issued (toSeconds now) 0 ?_ hcurrent ?_ (Or.inl ⟨hlt, rfl⟩) rfl
      · simp [Call.seconds]
      · simpa using hpast

theorem buildAllocator_ok {g g' : DefaultUidGenerator} (h : g.buildAllocator = (.ok (), g')) :
    ∃ L : Layout, g.timeBits = L.t ∧ g.workerBits = L.w ∧ g.seqBits = L.s ∧
      g' = { g with bitsAllocator := some L.allocator } := by
  unfold buildAllocator at h
  cases hA : BitsAllocator.new g.timeBits g.workerBits g.seqBits with
  | error e => simp [hA] at h
  | ok A =>
    simp only [hA, Prod.mk.injEq, true_and] at h
    obtain ⟨L, rfl, ht, hw, hs⟩ := layout_of_new g.timeBits_pos g.workerBits_pos g.seqBits_pos hA
    exact ⟨L, ht, hw, hs, h.symm⟩

theorem storeWorkerId_ok {g g' : DefaultUidGenerator} {A : BitsAllocator}
    {assigned : Except Throwable ℤ} (hA : g.bitsAllocator = some A)
    (h : g.storeWorkerId assigned = (.ok (), g')) :
    ∃ workerId, assigned = .ok workerId ∧ workerId ≤ A.maxWorkerId ∧
      g' = { g with workerId := workerId } := by
  cases assigned with
  | error e => simp [storeWorkerId] at h
  | ok workerId =>
    unfold storeWorkerId at h
    by_cases hmax : workerId > A.maxWorkerId
    · simp [hA, hmax] at h
    · simp only [hA, hmax, if_false, Prod.mk.injEq, true_and] at h
      exact ⟨workerId, rfl, by omega, by rw [← h]; simp [hA]⟩

theorem afterPropertiesSet_ok {g g' : DefaultUidGenerator} {assigned : Except Throwable ℤ}
    (h : g.afterPropertiesSet assigned = (.ok (), g')) :
    ∃ (L : Layout) (workerId : ℤ), assigned = .ok workerId ∧ workerId < 2 ^ L.w ∧
      g.timeBits = L.t ∧ g.workerBits = L.w ∧ g.seqBits = L.s ∧
      g' = { g with bitsAllocator := some L.allocator, workerId } := by
  unfold afterPropertiesSet at h
  cases hb : g.buildAllocator with
  | mk out built =>
    cases out with
    | error e => simp [hb] at h
    | ok _ =>
      obtain ⟨L, ht, hw, hs, rfl⟩ := buildAllocator_ok hb
      simp only [hb] at h
      obtain ⟨workerId, rfl, hmax, rfl⟩ := storeWorkerId_ok rfl h
      exact ⟨L, workerId, rfl, Int.lt_of_le_sub_one hmax, ht, hw, hs, rfl⟩

/-- Widths that make up a layout are accepted with every worker id that fits. -/
theorem afterPropertiesSet_of_layout {g : DefaultUidGenerator} {L : Layout} {workerId : ℤ}
    (ht : g.timeBits = L.t) (hw : g.workerBits = L.w) (hs : g.seqBits = L.s)
    (hworker : workerId < 2 ^ L.w) :
    g.afterPropertiesSet (.ok workerId) =
      (.ok (), { g with bitsAllocator := some L.allocator, workerId }) := by
  have hnew : BitsAllocator.new g.timeBits g.workerBits g.seqBits = .ok L.allocator := by
    rw [ht, hw, hs]
    exact L.new_eq
  have hfits : ¬workerId > L.allocator.maxWorkerId := by
    change ¬workerId > 2 ^ L.w - 1
    omega
  simp only [afterPropertiesSet, buildAllocator, hnew, storeWorkerId, if_neg hfits]

structure Ready (cfg : Settings) (assigned : ℤ) (L : Layout) (g : DefaultUidGenerator) : Prop where
  settings : g.toSettings = cfg
  timeBits : cfg.timeBits = L.t
  workerBits : cfg.workerBits = L.w
  seqBits : cfg.seqBits = L.s
  bitsAllocator : g.bitsAllocator = some L.allocator
  workerId : g.workerId = assigned
  workerId_lt : assigned < 2 ^ L.w
  sequence : g.sequence = 0
  lastSecond : g.lastSecond = -1

theorem ready_of_init {settings : Settings} {workerId : ℤ} {g : DefaultUidGenerator}
    (h : (configured settings).afterPropertiesSet (.ok workerId) = (.ok (), g)) :
    ∃ L, Ready settings workerId L g := by
  obtain ⟨L, _, ⟨⟩, hlt, ht, hw, hs, rfl⟩ := afterPropertiesSet_ok h
  exact ⟨L, rfl, ht, hw, hs, rfl, rfl, hlt, rfl, rfl⟩

end UID.DefaultUidGenerator
