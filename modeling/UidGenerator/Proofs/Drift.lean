import UidGenerator.Proofs.Lookahead

/-! How far a `CachedUidGenerator` runs ahead of its start. Every pass borrows the seconds
of the UIDs that it adds and at most one second more, but at least one; a take asks for a
pass only after as many takes as the pass then refills. -/

namespace UID

open Transition

variable {P : Provision} {t t' : Lookahead} {calls passes refills k n : ℕ}

namespace Lookahead

open CachedUidGenerator (Event callOutcomes returnedUids callOutcomes_snoc)

variable {events : List Event}

/-- After `calls` calls and `passes` passes that were asked for, calls refilled `refills` times. -/
structure Drifts (P : Provision) (calls passes refills : ℕ) (t : Lookahead) : Prop where
  passes_le : passes + refills ≤ t.seconds
  low : t.uids.length + (passes + refills) ≤ P.perSecond * t.seconds
  high : P.perSecond * t.seconds ≤ t.uids.length + P.perSecond * (passes + refills)
  refills_le : (P.bufferSize - P.paddingThreshold) * refills ≤ calls
  spent : (P.bufferSize - P.paddingThreshold) * refills + P.bufferSize ≤
    calls + (t.uids.length - t.returned) + 1

/-- What a pass adds pays for its seconds but the last. -/
theorem length_pass (hP : P.Provides) (hn : n < P.perSecond) :
    t.uids.length ≤ (t.pass P k n).uids.length ∧
      (t.pass P k n).uids.length + P.perSecond = t.uids.length + P.perSecond * (k + 1) + n ∧
      P.perSecond * (t.pass P k n).seconds = P.perSecond * t.seconds + P.perSecond * (k + 1) := by
  rw [pass, List.length_append, length_passUids hP.each _ _ hn, Nat.mul_succ]
  exact ⟨by omega, by omega, Nat.mul_add _ _ _⟩

theorem Drifts.take (h : Drifts P calls passes refills t) :
    Drifts P (calls + 1) passes refills t.take := by
  have hone : t.next.toList.length ≤ 1 := by cases t.next <;> simp
  have hrefills := h.refills_le
  have hspent := h.spent
  refine ⟨h.passes_le, h.low, h.high, by push_cast; omega, ?_⟩
  rw [Lookahead.take]
  push_cast
  omega

theorem Drifts.pass (h : Drifts P calls passes refills t) (hP : P.Provides) (hn : n < P.perSecond) :
    Drifts P calls (passes + 1) refills (t.pass P k n) := by
  obtain ⟨hgrows, hlen, hseconds⟩ := length_pass (t := t) (k := k) hP hn
  have hpasses : P.perSecond * (passes + 1 + refills) =
      P.perSecond * (passes + refills) + P.perSecond := by ring
  have hmul := Nat.mul_succ P.perSecond k
  have hle := h.passes_le
  have hlow := h.low
  have hhigh := h.high
  have hspent := h.spent
  have hreturned : (t.pass P k n).returned = t.returned := rfl
  have hcount : (t.pass P k n).seconds = t.seconds + (k + 1) := rfl
  exact ⟨by omega, by omega, by omega, h.refills_le, by omega⟩

/-- A call that refills has had as many calls before it as were missing. -/
theorem Drifts.refill (h : Drifts P calls passes refills t) (hP : P.Provides) (hn : n < P.perSecond)
    (hfew : (t.uids.length : ℤ) ≤ t.returned + P.paddingThreshold)
    (hfull : t.take.returned + P.bufferSize ≤ (t.pass P k n).uids.length + 1) :
    Drifts P (calls + 1) passes (refills + 1) (t.take.pass P k n) := by
  obtain ⟨hgrows, hlen, hseconds⟩ := length_pass (t := t) (k := k) hP hn
  have hpasses : P.perSecond * (passes + (refills + 1)) =
      P.perSecond * (passes + refills) + P.perSecond := by ring
  have hdue : (P.bufferSize - P.paddingThreshold) * (refills + 1 : ℕ) =
      (P.bufferSize - P.paddingThreshold) * refills + (P.bufferSize - P.paddingThreshold) := by
    push_cast
    ring
  have hmul := Nat.mul_succ P.perSecond k
  have hle := h.passes_le
  have hlow := h.low
  have hhigh := h.high
  have hspent := h.spent
  have huids : (t.take.pass P k n).uids.length = (t.pass P k n).uids.length := rfl
  have hreturned : (t.take.pass P k n).returned = t.take.returned := rfl
  have hcount : (t.take.pass P k n).seconds = t.seconds + (k + 1) := rfl
  rw [show (t.pass P k n).seconds = t.seconds + (k + 1) from rfl, ← hcount] at hseconds
  exact ⟨by omega, by omega, by omega, by omega, by omega⟩

theorem Drifts.step {e : Event} (h : Drifts P calls passes refills t) (hP : P.Provides)
    (hstep : t.Step P e t') : ∃ refills', Drifts P (calls + e.outcome.toList.length)
      (passes + [e].countP Event.asksForPass) refills' t' := by
  cases hstep with
  | take _ => exact ⟨refills, h.take⟩
  | takeAndPass _ hfew hpasses hfull => exact ⟨refills + 1, h.refill hP hpasses.within hfew hfull⟩
  | pass hasked hpasses =>
    obtain ⟨-, houtcome⟩ := uid_of_asked hasked
    rw [houtcome, List.countP_singleton, if_pos hasked]
    exact ⟨refills, h.pass hP hpasses.within⟩

theorem Drifts.run (h : Drifts P 0 passes 0 t) (hP : P.Provides) (hrun : Run (Step P) t events t') :
    ∃ refills, Drifts P (callOutcomes events).length (passes + events.countP Event.asksForPass)
      refills t' := by
  refine hrun.invariant (fun events t' => ∃ refills, Drifts P (callOutcomes events).length
    (passes + events.countP Event.asksForPass) refills t') ⟨0, h⟩ ?_
  rintro events s e s' - ⟨refills, hs⟩ hstep
  obtain ⟨refills', hs'⟩ := hs.step hP hstep
  refine ⟨refills', ?_⟩
  rw [callOutcomes_snoc, List.countP_append, List.length_append, ← add_assoc]
  exact hs'

/-- The first fill is the first pass. -/
theorem Drifts.first (hP : P.Provides) (hpasses : Passes P ⟨[], 0, 0⟩ k n)
    (hfull : P.bufferSize ≤ (Lookahead.pass P ⟨[], 0, 0⟩ k n).uids.length) :
    Drifts P 0 1 0 (Lookahead.pass P ⟨[], 0, 0⟩ k n) := by
  obtain ⟨hgrows, hlen, hseconds⟩ := length_pass (t := ⟨[], 0, 0⟩) (k := k) hP hpasses.within
  have hn := hpasses.within
  have hmul := Nat.mul_succ P.perSecond k
  have hreturned : (Lookahead.pass P ⟨[], 0, 0⟩ k n).returned = 0 := rfl
  have hcount : (Lookahead.pass P ⟨[], 0, 0⟩ k n).seconds = 0 + (k + 1) := rfl
  simp only [List.length_nil, Nat.mul_zero, Nat.zero_add] at hlen hseconds
  exact ⟨by omega, by omega, by omega, by simp, by push_cast; omega⟩

end Lookahead

namespace CachedUidGenerator

variable {settings : CachedSettings} {workerId now : ℤ} {fuel : ℕ} {g g₀ : CachedUidGenerator}

/-- How far a run that is not destroyed borrows. Every second pays for the UIDs of one
second, so there are enough for all UIDs returned and one at least for every pass; and no
more than for the slots, the calls, every pass asked for, and a pass for every
`bufferSize - paddingThreshold` calls. -/
theorem drift_bounds {events : List Event} (hnow : IsTime now)
    (hput : settings.rejectedPutBufferHandler = none)
    (htake : settings.rejectedTakeBufferHandler = none)
    (hinit : (configured settings).afterPropertiesSet (.ok workerId) now fuel = some (.ok (), g₀))
    (hlive : ∀ out, .destroy out ∉ events) (hrun : Runs g₀ events g)
    (hbound : ∀ p ∈ g₀.padded, (callOutcomes events).length + p.ringBuffer.bufferSize ≤ 2 ^ 63) :
    ∃ A p, ∃ seconds : ℕ, g.bitsAllocator = some A ∧ g.padded = some p ∧
      p.executor.lastSecond = toLong (toSeconds now + seconds) ∧
      1 + events.countP Event.asksForPass ≤ seconds ∧
      (returnedUids events).length + 1 + events.countP Event.asksForPass ≤
        (A.maxSequence + 1) * seconds ∧
      (A.maxSequence + 1) * seconds ≤ p.ringBuffer.bufferSize + (callOutcomes events).length +
        (A.maxSequence + 1) * (1 + events.countP Event.asksForPass +
          (callOutcomes events).length / (p.ringBuffer.bufferSize - p.ringBuffer.paddingThreshold)) := by
  obtain ⟨L, filled, hready⟩ := ready_of_init hinit
  obtain ⟨P, k, n, hbegins⟩ := hready.begins hnow hput htake
  obtain ⟨p₀, hg₀, -, hlive₀⟩ := id hbegins.laysAhead
  obtain ⟨t, ⟨p, rfl, -, hring⟩, hreturns, hmodel⟩ := hbegins.laysAhead.run rfl hbegins.provides
    (hlive₀.size ▸ hbound p₀ (by rw [hg₀]; rfl)) hlive (hrun.mono fun _ _ _ h => ⟨h, trivial⟩)
  obtain ⟨refills, h⟩ :=
    (Lookahead.Drifts.first hbegins.provides hbegins.passes hbegins.full).run hbegins.provides
      (hmodel.mono fun _ _ _ h => h.1)
  have hmax : L.allocator.maxSequence + 1 = (2 ^ L.s : ℕ) := by
    rw [show L.allocator.maxSequence = 2 ^ L.s - 1 from rfl, sub_add_cancel]
    norm_num
  have hrefills : (refills : ℤ) ≤
      (callOutcomes events).length / (p.ringBuffer.bufferSize - p.ringBuffer.paddingThreshold) := by
    rw [hring.size, hring.threshold, Int.le_ediv_iff_mul_le (sub_pos.2 hbegins.threshold_lt),
      mul_comm]
    exact h.refills_le
  have hreturned : (returnedUids events).length ≤ t.uids.length := by
    rw [hreturns.uids, List.length_take]
    exact min_le_right _ _
  have hlow := h.low
  have hhigh := h.high
  rw [hbegins.perSecond] at hlow hhigh
  have hle := h.passes_le
  have hcalls := hreturns.calls
  have hlen := hring.represents.length_le
  refine ⟨L.allocator, p, t.seconds, hready.bitsAllocator, rfl, ?_, by omega, ?_, ?_⟩
  · rw [← toLong_eq_self hring.isLong, hring.lastSecond, hbegins.startSecond]
  · rw [hmax]
    exact_mod_cast (by omega : (returnedUids events).length + 1 + events.countP Event.asksForPass ≤
      2 ^ L.s * t.seconds)
  · rw [hmax]
    have hmul : ((2 ^ L.s : ℕ) : ℤ) * (1 + events.countP Event.asksForPass + refills) ≤
        (2 ^ L.s : ℕ) * (1 + events.countP Event.asksForPass + (callOutcomes events).length /
          (p.ringBuffer.bufferSize - p.ringBuffer.paddingThreshold)) :=
      mul_le_mul_of_nonneg_left (by omega) (by positivity)
    zify at hhigh
    push_cast at hhigh hmul ⊢
    omega

/-- Three calls borrow two seconds at least and five at most. -/
theorem drift_bounds_four_slots :
    ∃ g₀ g p, (configured fourSlots).afterPropertiesSet (.ok 1) 0 3 = some (.ok (), g₀) ∧
      Runs g₀ [.getUID (.ok 10), .getUID (.ok 11), .getUID (.ok 18)] g ∧ g.padded = some p ∧
      2 ≤ p.executor.lastSecond ∧ p.executor.lastSecond ≤ 5 := by
  let g := initialized fourSlots
  let next (g : CachedUidGenerator) := ((g.getUID 5).map Prod.snd).getD g
  have hcall (s : CachedUidGenerator) (uid : ℤ) (h : (s.getUID 5).map Prod.fst = some (.ok uid)) :
      Step s (.getUID (.ok uid)) (next s) := .getUID (eq_some_of_map_fst s h)
  have hrun : Runs g [.getUID (.ok 10), .getUID (.ok 11), .getUID (.ok 18)] (next (next (next g))) :=
    .cons (hcall g 10 (by decide +kernel)) (.cons (hcall (next g) 11 (by decide +kernel))
      (.cons (hcall (next (next g)) 18 (by decide +kernel)) .nil))
  have hring : (next (next (next g))).padded.map (fun p =>
      (p.ringBuffer.bufferSize, p.ringBuffer.paddingThreshold)) = some (4, 2) := by decide +kernel
  have hfirst : g.padded.map (·.ringBuffer.bufferSize) = some 4 := by decide +kernel
  have hbits : (next (next (next g))).bitsAllocator.map (·.maxSequence) = some 1 := by decide +kernel
  obtain ⟨A, p, seconds, hA, hp, hlast, -, hlow, hhigh⟩ := drift_bounds (Nat.zero_le _) rfl rfl
    init_fourSlots (by simp) hrun fun p hp => by
      rw [Option.mem_def.1 hp, Option.map_some, Option.some.injEq] at hfirst
      rw [hfirst]
      decide
  rw [hp, Option.map_some, Option.some.injEq, Prod.mk.injEq] at hring
  rw [hA, Option.map_some, Option.some.injEq] at hbits
  rw [hbits] at hlow hhigh
  rw [hring.1, hring.2] at hhigh
  simp only [returnedUids, callOutcomes, List.filterMap_cons, List.filterMap_nil, Event.uid,
    Event.outcome, Except.toOption, List.length_cons, List.length_nil, List.countP_cons,
    List.countP_nil, Event.asksForPass, Bool.false_eq_true, if_false] at hlow hhigh
  rw [show toSeconds 0 = 0 from by decide, toLong_eq_self ⟨by omega, by omega⟩] at hlast
  exact ⟨g, next (next (next g)), p, init_fourSlots, hrun, hp, by omega, by omega⟩

end CachedUidGenerator

end UID
