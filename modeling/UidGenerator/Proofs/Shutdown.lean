import UidGenerator.Proofs.Reentrancy

/-! Runs after `shutdown`. The pool and the schedule check their flags before they run
anything, so whatever timers are still armed, only a direct call of `paddingBuffer` begins
a pass. -/

namespace UID

open RingBuffer Transition

variable {m m₀ m' : Machine} {e : MachineEvent} {events : List MachineEvent}

structure Stopped (p : PaddedRing) : Prop where
  pool : p.executor.bufferPadExecutorsShutdown = true
  schedule : ∀ schedule ∈ p.executor.bufferPadSchedule, schedule.shutdown = true

theorem shutdownNow_shutdown (s : ScheduledExecutorService) : s.shutdownNow.shutdown = true := by
  unfold ScheduledExecutorService.shutdownNow
  split <;> rfl

theorem stopped_shutdown (p : PaddedRing) : Stopped p.shutdown := by
  simp only [PaddedRing.shutdown]
  split
  · next hnone => exact ⟨rfl, fun s hs => by rw [hnone] at hs; cases hs⟩
  · next schedule hsome =>
    split_ifs with hshut
    · refine ⟨rfl, fun s hs => ?_⟩
      obtain rfl := Option.some.inj (hsome.symm.trans hs)
      exact hshut
    · refine ⟨rfl, fun s hs => ?_⟩
      obtain rfl := Option.some.inj hs
      exact shutdownNow_shutdown schedule

theorem Stopped.setSchedule {p : PaddedRing} (h : Stopped p) {schedule : ScheduledExecutorService}
    (hshut : schedule.shutdown = true) : Stopped (p.setSchedule schedule) where
  pool := h.pool
  schedule s hs := by
    obtain rfl := Option.some.inj hs
    exact hshut

def Frame.pass : Frame → Option Caller
  | .uidProvider caller => some caller
  | .rejectedPutHandler pass _ => pass
  | .rejectedTakeHandler _ => none

/-- The pass was begun through the pool or by a timer. -/
def Caller.pooled : Caller → Bool
  | .code => false
  | _ => true

def Machine.callers (m : Machine) : List Caller := m.stack.filterMap Frame.pass

def Machine.pooledCallers (m : Machine) : List Caller := m.callers.filter Caller.pooled

theorem isPass_eq (frame : Frame) : frame.isPass = frame.pass.isSome := by
  cases frame <;> rfl

theorem passes_eq_length (m : Machine) : m.passes = m.callers.length := by
  rw [Machine.passes, Machine.callers]
  induction m.stack with
  | nil => rfl
  | cons frame stack ih =>
    rw [List.countP_cons, List.filterMap_cons, ih, isPass_eq]
    cases frame.pass <;> simp

/-- What the end of a pass and the code around a ring leave alone. -/
structure Settles (m m' : Machine) : Prop where
  lastSecond : m'.padded.executor.lastSecond = m.padded.executor.lastSecond
  tail : m'.padded.ringBuffer.tail = m.padded.ringBuffer.tail
  callers : m'.callers = m.callers
  stopped : Stopped m'.padded

theorem finish_tail (r : RingBuffer) (c : ℤ) : (r.finish c).2.tail = r.tail := by
  obtain ⟨outcome, r', hfinish⟩ : ∃ outcome r', r.finish c = (outcome, r') := ⟨_, _, rfl⟩
  rw [hfinish, finish_frame hfinish]

namespace Machine

theorem callers_wait (m : Machine) (frame : Frame) :
    (m.wait frame).callers = frame.pass.toList ++ m.callers := by
  rw [callers, callers, wait, List.filterMap_cons]
  cases frame.pass <;> rfl

theorem readSlot_settles (h : Stopped m.padded) (currentCursor nextCursor : ℤ) :
    Settles m (m.readSlot currentCursor nextCursor) := by
  unfold readSlot
  split_ifs
  · exact ⟨rfl, rfl, callers_wait m _, ⟨h.pool, h.schedule⟩⟩
  · exact ⟨rfl, finish_tail _ _, rfl, ⟨h.pool, h.schedule⟩⟩

theorem leavePass_settles (h : Stopped m.padded) (outcome : Except Throwable Unit) (caller : Caller) :
    Settles m (m.leavePass outcome caller) := by
  cases caller with
  | code => exact ⟨rfl, rfl, rfl, h⟩
  | submitted => exact ⟨rfl, rfl, rfl, h⟩
  | timer =>
    unfold leavePass
    cases hschedule : m.padded.executor.bufferPadSchedule with
    | none => exact ⟨rfl, rfl, rfl, h⟩
    | some schedule => exact ⟨rfl, rfl, rfl, h.setSchedule (h.schedule schedule hschedule)⟩
  | take currentCursor nextCursor => exact readSlot_settles h currentCursor nextCursor

theorem take_settles (h : Stopped m.padded) : Settles m m.take := by
  unfold take
  generalize hclaim : m.padded.ringBuffer.claim = claim
  obtain ⟨nextCursor, r⟩ := claim
  have htail : r.tail = m.padded.ringBuffer.tail := congrArg (·.2.tail) hclaim.symm
  have hmoved : Settles m (m.setRingBuffer r) := ⟨rfl, htail, rfl, ⟨h.pool, h.schedule⟩⟩
  have hshut : (m.setRingBuffer r).padded.executor.bufferPadExecutorsShutdown = true := h.pool
  by_cases hforward : nextCursor ≥ m.padded.ringBuffer.cursor
  · simp only [isTrue, if_pos hforward, if_pos hshut]
    split_ifs
    · exact ⟨rfl, htail, rfl, hmoved.stopped⟩
    · obtain ⟨hlast, htail', hcallers, hstopped⟩ :=
        readSlot_settles hmoved.stopped m.padded.ringBuffer.cursor nextCursor
      exact ⟨hlast, htail'.trans htail, hcallers, hstopped⟩
  · simp only [isTrue, if_neg hforward]
    exact ⟨rfl, htail, rfl, hmoved.stopped⟩

theorem asyncPadding_settles (h : Stopped m.padded) : Settles m m.asyncPadding := by
  unfold asyncPadding
  rw [if_pos h.pool]
  exact ⟨rfl, rfl, rfl, h⟩

theorem fire_settles (h : Stopped m.padded) {schedule : ScheduledExecutorService}
    (hscheduled : m.padded.executor.bufferPadSchedule = some schedule) (timer : ℕ) :
    Settles m (m.fire schedule timer) := by
  have hshut := h.schedule schedule hscheduled
  unfold fire
  simp only [if_pos hshut]
  exact ⟨rfl, rfl, rfl, h.setSchedule hshut⟩

theorem start_settles (h : Stopped m.padded) {outcome : Except Throwable Unit} {p : PaddedRing}
    (hstart : m.padded.start = (outcome, p)) :
    Settles m { m with padded := p, reply := .unit outcome } := by
  have hsame : m.padded.start.2 = m.padded := by
    unfold PaddedRing.start
    cases hschedule : m.padded.executor.bufferPadSchedule with
    | none => rfl
    | some schedule =>
      simp only [ScheduledExecutorService.scheduleWithFixedDelay,
        if_pos (h.schedule schedule hschedule)]
  obtain rfl : p = m.padded := by rw [← hsame, hstart]
  exact ⟨rfl, rfl, rfl, h⟩

theorem askProvider_callers (m : Machine) (caller : Caller) :
    (m.askProvider caller).callers = caller :: m.callers :=
  callers_wait _ _

theorem putAll_callers (h : Stopped m.padded) (caller : Caller) (uidList : List ℤ) :
    (m.putAll caller uidList).callers = caller :: m.callers ∧
      Stopped (m.putAll caller uidList).padded := by
  induction uidList generalizing m with
  | nil => exact ⟨m.askProvider_callers caller, ⟨h.pool, h.schedule⟩⟩
  | cons uid uidList ih =>
    unfold putAll
    split
    · next r _ => exact ih (m := m.setRingBuffer r) ⟨h.pool, h.schedule⟩
    · exact ⟨callers_wait m _, h⟩

end Machine

inductive StoppedCases (m : Machine) (e : MachineEvent) (m' : Machine) : Prop
  | settles (h : Settles m m')
  | put (uid : ℤ) (event : e = .put uid) (callers : m'.callers = m.callers)
      (stopped : Stopped m'.padded)
  | direct (event : e = .paddingBuffer) (callers : m'.callers = .code :: m.callers)
      (stopped : Stopped m'.padded)
  | pass (caller : Caller) (rest : List Caller) (before : m.callers = caller :: rest)
      (after : m'.callers = m.callers ∨ m'.callers = rest) (stopped : Stopped m'.padded)

theorem callers_of_pop {frame : Frame} {stack : List Frame} (top : m.stack = frame :: stack) :
    m.callers = frame.pass.toList ++ ({ m with stack } : Machine).callers := by
  rw [Machine.callers, top, List.filterMap_cons]
  cases frame.pass <;> rfl

theorem stopped_cases (h : Stopped m.padded) (hstep : MachineStep m e m') :
    StoppedCases m e m' := by
  cases hstep with
  | @put uid =>
    refine .put uid rfl ?_ ?_
    · unfold Machine.put
      split
      · rfl
      · exact Machine.callers_wait m _
    · unfold Machine.put
      split <;> exact ⟨h.pool, h.schedule⟩
  | take => exact .settles (Machine.take_settles h)
  | paddingBuffer =>
    unfold Machine.paddingBuffer
    split_ifs
    · exact .settles (Machine.leavePass_settles h _ _)
    · exact .direct rfl (Machine.askProvider_callers _ _) ⟨h.pool, h.schedule⟩
  | asyncPadding => exact .settles (Machine.asyncPadding_settles h)
  | start hstart => exact .settles (Machine.start_settles h hstart)
  | shutdown =>
    refine .settles ⟨?_, ?_, rfl, stopped_shutdown m.padded⟩
    · simp only [PaddedRing.shutdown]
      split
      · rfl
      · split_ifs <;> rfl
    · simp only [PaddedRing.shutdown]
      split
      · rfl
      · split_ifs <;> rfl
  | @fire schedule timer _ hscheduled _ =>
    exact .settles (Machine.fire_settles h hscheduled timer)
  | @provided caller stack answer top =>
    have hpop := callers_of_pop top
    cases answer with
    | error error =>
      have hleave := Machine.leavePass_settles (m := { m with stack }) h (.error error) caller
      exact .pass caller _ hpop (Or.inr hleave.callers) hleave.stopped
    | ok uidList =>
      obtain ⟨hcallers, hstopped⟩ := Machine.putAll_callers (m := { m with stack }) h caller uidList
      exact .pass caller _ hpop (Or.inl (hcallers.trans hpop.symm)) hstopped
  | @putHandled pass uid stack answer top =>
    have hpop := callers_of_pop top
    cases pass with
    | none => exact .settles ⟨rfl, rfl, hpop.symm, h⟩
    | some caller =>
      cases answer with
      | error error =>
        have hleave := Machine.leavePass_settles (m := { m with stack }) h (.error error) caller
        exact .pass caller _ hpop (Or.inr hleave.callers) hleave.stopped
      | ok _ =>
        have hleave := Machine.leavePass_settles
          (m := { m with padded := m.padded.setRunning false, stack }) ⟨h.pool, h.schedule⟩ (.ok ()) caller
        exact .pass caller _ hpop (Or.inr hleave.callers) hleave.stopped
  | @takeHandled nextCursor stack answer top =>
    have hpop := callers_of_pop top
    cases answer with
    | error error => exact .settles ⟨rfl, rfl, hpop.symm, h⟩
    | ok _ => exact .settles ⟨rfl, finish_tail _ _, hpop.symm, ⟨h.pool, h.schedule⟩⟩

theorem Stopped.step (h : Stopped m.padded) (hstep : MachineStep m e m') : Stopped m'.padded := by
  cases stopped_cases h hstep with
  | settles hsettles => exact hsettles.stopped
  | put _ _ _ hstopped => exact hstopped
  | direct _ _ hstopped => exact hstopped
  | pass _ _ _ _ hstopped => exact hstopped

/-- Neither `paddingBuffer` nor `put` is called directly. -/
def IndirectStep (m : Machine) (e : MachineEvent) (m' : Machine) : Prop :=
  MachineStep m e m' ∧ e ≠ .paddingBuffer ∧ ∀ uid, e ≠ .put uid

theorem callers_suffix (h : Stopped m.padded) (hstep : IndirectStep m e m') :
    m'.callers <:+ m.callers := by
  obtain ⟨hstep, hdirect, hput⟩ := hstep
  cases stopped_cases h hstep with
  | settles hsettles => rw [hsettles.callers]
  | put uid hevent _ _ => exact absurd hevent (hput uid)
  | direct hevent _ _ => exact absurd hevent hdirect
  | pass caller rest hbefore hafter _ =>
    rcases hafter with hsame | hrest
    · rw [hsame]
    · rw [hrest, hbefore]
      exact List.suffix_cons caller rest

theorem pooledCallers_suffix (h : Stopped m.padded) (hstep : MachineStep m e m') :
    m'.pooledCallers <:+ m.pooledCallers := by
  unfold Machine.pooledCallers
  cases stopped_cases h hstep with
  | settles hsettles => rw [hsettles.callers]
  | put _ _ hcallers _ => rw [hcallers]
  | direct _ hcallers _ =>
    rw [hcallers, List.filter_cons_of_neg (by simp [Caller.pooled])]
  | pass caller rest hbefore hafter _ =>
    rcases hafter with hsame | hrest
    · rw [hsame]
    · rw [hrest, hbefore]
      exact (List.suffix_cons caller rest).filter _

/-- Once no pass is left on the stack, a step leaves `lastSecond` and the tail alone. -/
theorem idle_step (h : Stopped m.padded) (hidle : m.callers = []) (hstep : IndirectStep m e m') :
    Settles m m' := by
  obtain ⟨hstep, hdirect, hput⟩ := hstep
  cases stopped_cases h hstep with
  | settles hsettles => exact hsettles
  | put uid hevent _ _ => exact absurd hevent (hput uid)
  | direct hevent _ _ => exact absurd hevent hdirect
  | pass caller rest hbefore _ _ => rw [hidle] at hbefore; cases hbefore

theorem stopped_of_shutdown (hshut : MachineStep m .shutdown m₀) : Stopped m₀.padded := by
  cases hshut
  exact stopped_shutdown m.padded

theorem stopped_run {step : Machine → MachineEvent → Machine → Prop}
    (hle : ∀ m e m', step m e m' → MachineStep m e m') (h : Stopped m.padded)
    (hrun : Run step m events m') : Stopped m'.padded :=
  hrun.invariant (fun _ m => Stopped m.padded) h fun _ _ _ _ _ h hstep => h.step (hle _ _ _ hstep)

theorem idle_run (h : Stopped m.padded) (hidle : m.callers = []) (hrun : Run IndirectStep m events m') :
    m'.padded.executor.lastSecond = m.padded.executor.lastSecond ∧
      m'.padded.ringBuffer.tail = m.padded.ringBuffer.tail := by
  refine (hrun.invariant (fun _ m' => Stopped m'.padded ∧ m'.callers = [] ∧
    m'.padded.executor.lastSecond = m.padded.executor.lastSecond ∧
      m'.padded.ringBuffer.tail = m.padded.ringBuffer.tail) ⟨h, hidle, rfl, rfl⟩ ?_).2.2
  rintro - mid e next - ⟨hstopped, hcallers, hlast, htail⟩ hstep
  have hsettles := idle_step hstopped hcallers hstep
  exact ⟨hsettles.stopped, hsettles.callers.trans hcallers, hsettles.lastSecond.trans hlast,
    hsettles.tail.trans htail⟩

/-- After `shutdown` only a direct call of `paddingBuffer` puts a pass on the stack. Without
direct calls there is none, and once those of before are gone the executor's second and the
tail of the ring stay. -/
theorem no_pass_after_shutdown (hshut : MachineStep m .shutdown m₀) :
    (∀ events m₁, Run MachineStep m₀ events m₁ → m₁.pooledCallers <:+ m₀.pooledCallers ∧
      ∀ e m₂, MachineStep m₁ e m₂ → m₁.passes < m₂.passes → e = .paddingBuffer) ∧
    ∀ events m₁, Run IndirectStep m₀ events m₁ → m₁.callers <:+ m₀.callers ∧
      (m₁.passes = 0 → ∀ later m₂, Run IndirectStep m₁ later m₂ →
        m₂.padded.executor.lastSecond = m₁.padded.executor.lastSecond ∧
          m₂.padded.ringBuffer.tail = m₁.padded.ringBuffer.tail) := by
  have hstopped := stopped_of_shutdown hshut
  refine ⟨?_, ?_⟩
  · intro events m₁ hrun
    have hstopped₁ := stopped_run (fun _ _ _ hstep => hstep) hstopped hrun
    refine ⟨?_, ?_⟩
    · refine (hrun.invariant (fun _ m => Stopped m.padded ∧ m.pooledCallers <:+ m₀.pooledCallers)
        ⟨hstopped, List.suffix_rfl⟩ ?_).2
      rintro - mid e next - ⟨hmid, hsuffix⟩ hstep
      exact ⟨hmid.step hstep, (pooledCallers_suffix hmid hstep).trans hsuffix⟩
    · intro e m₂ hstep hmore
      rw [passes_eq_length, passes_eq_length] at hmore
      cases stopped_cases hstopped₁ hstep with
      | settles hsettles => rw [hsettles.callers] at hmore; omega
      | put _ _ hcallers _ => rw [hcallers] at hmore; omega
      | direct hevent _ _ => exact hevent
      | pass caller rest hbefore hafter _ =>
        rcases hafter with hsame | hrest
        · rw [hsame] at hmore; omega
        · rw [hrest, hbefore, List.length_cons] at hmore; omega
  · intro events m₁ hrun
    refine ⟨?_, fun hnone later m₂ hlater => ?_⟩
    · refine (hrun.invariant (fun _ m => Stopped m.padded ∧ m.callers <:+ m₀.callers)
        ⟨hstopped, List.suffix_rfl⟩ ?_).2
      rintro - mid e next - ⟨hmid, hsuffix⟩ hstep
      exact ⟨hmid.step hstep.1, (callers_suffix hmid hstep).trans hsuffix⟩
    · rw [passes_eq_length, List.length_eq_zero_iff] at hnone
      exact idle_run (stopped_run (fun _ _ _ hstep => hstep.1) hstopped hrun) hnone hlater

/-- A pass of the schedule during which `shutdown` is called: it fills the ring and arms its
timer again, which then fires for nothing. -/
theorem no_pass_after_shutdown_two_slots :
    ∃ (m m₀ m₁ m₂ : Machine) (events : List MachineEvent), MachineStep m .shutdown m₀ ∧
      m₀.callers = [.timer] ∧ Run IndirectStep m₀ events m₁ ∧ m₁.passes = 0 ∧
      m₁.padded.ringBuffer.unreadUids = [7, 8] ∧ Run IndirectStep m₁ [.fire 1] m₂ ∧
      m₂.padded.ringBuffer.tail = m₁.padded.ringBuffer.tail := by
  let schedule : ScheduledExecutorService := ScheduledExecutorService.arm {}
  let m : Machine := (⟨(PaddedRing.mk twoSlots (.new 0 true) true).setSchedule schedule, [],
    .nothing⟩ : Machine).fire schedule 0
  let m₀ : Machine := { m with padded := m.padded.shutdown, reply := .unit (.ok ()) }
  let full := ({ m₀ with stack := [] } : Machine).provided .timer (.ok [7, 8, 9])
  let m₁ := ({ full with stack := [] } : Machine).putHandled (.ok ()) (some .timer)
  have hshut : MachineStep m .shutdown m₀ := .shutdown
  have hrun : Run IndirectStep m₀ [.provided (.ok [7, 8, 9]), .putHandled (.ok ())] m₁ :=
    .cons ⟨.provided rfl, by simp, by simp⟩ (run_singleton.2 ⟨.putHandled rfl, by simp, by simp⟩)
  have hfire : Run IndirectStep m₁ [.fire 1] (m₁.fire ⟨true, some 1, [1], 2⟩ 1) :=
    run_singleton.2 ⟨.fire rfl rfl (by simp), by simp, by simp⟩
  exact ⟨m, m₀, m₁, _, _, hshut, rfl, hrun, rfl, by decide, hfire,
    (((no_pass_after_shutdown hshut).2 _ m₁ hrun).2 rfl _ _ hfire).2⟩

end UID
