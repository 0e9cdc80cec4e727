import UidGenerator.Spec.Reentrancy
import UidGenerator.Proofs.FailedTakes

/-! The single-flight flag under re-entrant calls. A step starts a pass, ends one, or
leaves both the passes on the stack and the flag alone; only an exception that leaves
a pass takes its frame away and not the flag. -/

namespace UID

open RingBuffer Transition

variable {m m' : Machine} {e : MachineEvent} {events : List MachineEvent} {caller : Caller}

def SameFlight (m m' : Machine) : Prop := m'.passes = m.passes ∧ m'.running = m.running

def Begins (m m' : Machine) : Prop :=
  m.running = false ∧ m'.passes = m.passes + 1 ∧ m'.running = true

namespace Machine

@[simp] theorem passes_wait (m : Machine) (frame : Frame) :
    (m.wait frame).passes = m.passes + if frame.isPass then 1 else 0 := by
  simp [passes, wait, List.countP_cons]

theorem readSlot_same (m : Machine) (currentCursor nextCursor : ℤ) :
    SameFlight m (m.readSlot currentCursor nextCursor) := by
  unfold readSlot
  split_ifs
  · exact ⟨by simp [Frame.isPass], rfl⟩
  · exact ⟨rfl, rfl⟩

theorem leavePass_same (m : Machine) (outcome : Except Throwable Unit) (caller : Caller) :
    SameFlight m (m.leavePass outcome caller) := by
  cases caller with
  | code => exact ⟨rfl, rfl⟩
  | submitted => exact ⟨rfl, rfl⟩
  | timer =>
    cases hschedule : m.padded.executor.bufferPadSchedule <;>
      simp only [leavePass, hschedule] <;> exact ⟨rfl, rfl⟩
  | take currentCursor nextCursor => exact m.readSlot_same currentCursor nextCursor

theorem askProvider_flight (m : Machine) (caller : Caller) :
    (m.askProvider caller).passes = m.passes + 1 ∧ (m.askProvider caller).running = m.running := by
  refine ⟨?_, rfl⟩
  rw [askProvider, passes_wait]
  rfl

theorem putAll_flight (m : Machine) (caller : Caller) (uidList : List ℤ) :
    (m.putAll caller uidList).passes = m.passes + 1 ∧
      (m.putAll caller uidList).running = m.running := by
  induction uidList generalizing m with
  | nil => exact m.askProvider_flight caller
  | cons uid uidList ih =>
    unfold putAll
    split
    · next r _ => exact ih (m.setRingBuffer r)
    · exact ⟨by simp [Frame.isPass], rfl⟩

theorem paddingBuffer_flight (m : Machine) (caller : Caller) :
    SameFlight m (m.paddingBuffer caller) ∨ Begins m (m.paddingBuffer caller) := by
  unfold paddingBuffer
  split_ifs with hrunning
  · exact Or.inl (m.leavePass_same _ caller)
  · obtain ⟨hpasses, hflag⟩ :=
      askProvider_flight { m with padded := m.padded.setRunning true } caller
    exact Or.inr ⟨by simpa using hrunning, hpasses, hflag⟩

theorem asyncPadding_flight (m : Machine) :
    SameFlight m m.asyncPadding ∨ Begins m m.asyncPadding := by
  unfold asyncPadding
  split_ifs
  · exact Or.inl ⟨rfl, rfl⟩
  · exact m.paddingBuffer_flight .submitted

theorem take_flight (m : Machine) : SameFlight m m.take ∨ Begins m m.take := by
  unfold take
  generalize m.padded.ringBuffer.claim = claim
  obtain ⟨nextCursor, r⟩ := claim
  by_cases hforward : nextCursor ≥ m.padded.ringBuffer.cursor
  · simp only [isTrue, if_pos hforward]
    split_ifs
    · exact Or.inl ⟨rfl, rfl⟩
    · exact (m.setRingBuffer r).paddingBuffer_flight _
    · exact Or.inl ((m.setRingBuffer r).readSlot_same _ _)
  · simp only [isTrue, if_neg hforward]
    exact Or.inl ⟨rfl, rfl⟩

theorem fire_flight (m : Machine) (schedule : ScheduledExecutorService) (timer : ℕ) :
    SameFlight m (m.fire schedule timer) ∨ Begins m (m.fire schedule timer) := by
  unfold fire
  simp only
  split_ifs
  · exact Or.inl ⟨rfl, rfl⟩
  · exact paddingBuffer_flight
      { m with padded := m.padded.setSchedule { schedule with armed := schedule.armed.erase timer } } _

theorem start_same {outcome : Except Throwable Unit} {p : PaddedRing}
    (h : m.padded.start = (outcome, p)) :
    SameFlight m { m with padded := p, reply := .unit outcome } := by
  rcases start_cases h with rfl | ⟨schedule, rfl⟩ <;> exact ⟨rfl, rfl⟩

theorem shutdown_same (m : Machine) :
    SameFlight m { m with padded := m.padded.shutdown, reply := .unit (.ok ()) } := by
  refine ⟨rfl, ?_⟩
  simp only [running, PaddedRing.shutdown]
  split
  · rfl
  · split_ifs <;> rfl

end Machine

inductive FlightCases (m : Machine) (e : MachineEvent) (m' : Machine) : Prop
  | same (quiet : ¬ThrowsIntoPass m e) (flight : SameFlight m m')
  | begins (quiet : ¬ThrowsIntoPass m e) (flight : Begins m m')
  | ends (quiet : ¬ThrowsIntoPass m e) (passes : m.passes = m'.passes + 1)
      (running : m'.running = false)
  | thrown (throws : ThrowsIntoPass m e) (passes : m.passes = m'.passes + 1)
      (running : m'.running = m.running)

theorem FlightCases.of_flight (hquiet : ¬ThrowsIntoPass m e) (h : SameFlight m m' ∨ Begins m m') :
    FlightCases m e m' :=
  h.elim (.same hquiet) (.begins hquiet)

theorem passes_of_pop {frame : Frame} {stack : List Frame} (top : m.stack = frame :: stack) :
    m.passes = ({ m with stack } : Machine).passes + if frame.isPass then 1 else 0 := by
  rw [Machine.passes, top, List.countP_cons]
  rfl

theorem flight_cases (h : MachineStep m e m') : FlightCases m e m' := by
  cases h with
  | put =>
    refine .same (by simp [ThrowsIntoPass]) ?_
    unfold Machine.put
    split
    · exact ⟨rfl, rfl⟩
    · exact ⟨by simp [Frame.isPass], rfl⟩
  | take => exact .of_flight (by simp [ThrowsIntoPass]) m.take_flight
  | paddingBuffer => exact .of_flight (by simp [ThrowsIntoPass]) (m.paddingBuffer_flight .code)
  | asyncPadding => exact .of_flight (by simp [ThrowsIntoPass]) m.asyncPadding_flight
  | start h => exact .same (by simp [ThrowsIntoPass]) (Machine.start_same h)
  | shutdown => exact .same (by simp [ThrowsIntoPass]) m.shutdown_same
  | @fire schedule timer => exact .of_flight (by simp [ThrowsIntoPass]) (m.fire_flight schedule timer)
  | @provided caller stack answer top =>
    have hpop := passes_of_pop top
    cases answer with
    | error error =>
      obtain ⟨hpasses, hflag⟩ :=
        ({ m with stack } : Machine).leavePass_same (.error error) caller
      refine .thrown ⟨⟨_, by rw [top]; rfl, rfl⟩, error, Or.inl rfl⟩ ?_ hflag
      rw [hpop, ← hpasses]
      rfl
    | ok uidList =>
      obtain ⟨hpasses, hflag⟩ := ({ m with stack } : Machine).putAll_flight caller uidList
      exact .same (by simp [ThrowsIntoPass]) ⟨hpasses.trans hpop.symm, hflag⟩
  | @putHandled pass uid stack answer top =>
    have hpop := passes_of_pop top
    cases pass with
    | none =>
      refine .same ?_ ⟨hpop.symm, rfl⟩
      rintro ⟨⟨frame, hframe, hpass⟩, -⟩
      rw [top, List.head?_cons, Option.mem_some_iff] at hframe
      rw [← hframe] at hpass
      cases hpass
    | some caller =>
      cases answer with
      | error error =>
        obtain ⟨hpasses, hflag⟩ :=
          ({ m with stack } : Machine).leavePass_same (.error error) caller
        refine .thrown ⟨⟨_, by rw [top]; rfl, rfl⟩, error, Or.inr rfl⟩ ?_ hflag
        rw [hpop, ← hpasses]
        rfl
      | ok _ =>
        obtain ⟨hpasses, hflag⟩ :=
          ({ m with padded := m.padded.setRunning false, stack } : Machine).leavePass_same (.ok ()) caller
        refine .ends (by simp [ThrowsIntoPass]) ?_ hflag
        rw [hpop]
        exact congrArg (· + 1) hpasses.symm
  | @takeHandled nextCursor stack answer top =>
    have hpop := passes_of_pop top
    refine .same (by simp [ThrowsIntoPass]) ?_
    cases answer <;> exact ⟨hpop.symm, rfl⟩

/-- There is one pass at most, and it holds the flag. -/
def SingleFlight (m : Machine) : Prop := m.passes = 0 ∨ m.passes = 1 ∧ m.running = true

theorem SingleFlight.step (h : SingleFlight m) (hstep : MachineStep m e m') : SingleFlight m' := by
  cases flight_cases hstep with
  | same _ hflight =>
    rw [SingleFlight, hflight.1, hflight.2]
    exact h
  | begins _ hflight =>
    obtain ⟨hidle, hpasses, hrunning⟩ := hflight
    rcases h with hnone | ⟨-, hflag⟩
    · exact Or.inr ⟨by omega, hrunning⟩
    · rw [hidle] at hflag
      cases hflag
  | ends _ hpasses _ =>
    rcases h with hnone | ⟨hone, -⟩
    · omega
    · exact Or.inl (by omega)
  | thrown _ hpasses _ =>
    rcases h with hnone | ⟨hone, -⟩
    · omega
    · exact Or.inl (by omega)

theorem singleFlight_run {p : PaddedRing} (hrun : Run MachineStep ⟨p, [], .nothing⟩ events m) :
    SingleFlight m :=
  hrun.invariant (fun _ m => SingleFlight m) (Or.inl rfl) fun _ _ _ _ _ h hstep => h.step hstep

/-- The flag is only set while a pass is on the stack. -/
def Released (m : Machine) : Prop := m.passes = 0 → m.running = false

/-- The flag is set and no pass is there to reset it. -/
def Leaked (m : Machine) : Prop := m.passes = 0 ∧ m.running = true

theorem Leaked.step (h : Leaked m) (hstep : MachineStep m e m') : Leaked m' := by
  obtain ⟨hnone, hflag⟩ := h
  cases flight_cases hstep with
  | same _ hflight => exact ⟨hflight.1.trans hnone, hflight.2.trans hflag⟩
  | begins _ hflight =>
    rw [hflight.1] at hflag
    cases hflag
  | ends _ hpasses _ => omega
  | thrown _ hpasses _ => omega

/-- The steps in which nothing throws into a pass. -/
def QuietStep (m : Machine) (e : MachineEvent) (m' : Machine) : Prop :=
  MachineStep m e m' ∧ ¬ThrowsIntoPass m e

/-- While nothing throws into a pass, the flag is only set during passes. The first
exception that does leaves it set for good. -/
theorem flag_released_unless_pass_throws {p : PaddedRing} (hidle : p.executor.running = false) :
    (∀ events m, Run QuietStep ⟨p, [], .nothing⟩ events m → Released m) ∧
      ∀ events m e m', Run MachineStep ⟨p, [], .nothing⟩ events m → MachineStep m e m' →
        ThrowsIntoPass m e → ∀ later m'', Run MachineStep m' later m'' →
          m''.passes = 0 ∧ m''.running = true := by
  constructor
  · intro events m hrun
    have hstart : Released ⟨p, [], .nothing⟩ := fun _ => hidle
    refine (hrun.invariant (fun _ m => SingleFlight m ∧ Released m) ⟨Or.inl rfl, hstart⟩ ?_).2
    rintro - mid e next - ⟨hsingle, hreleased⟩ ⟨hstep, hquiet⟩
    refine ⟨hsingle.step hstep, fun hnone => ?_⟩
    cases flight_cases hstep with
    | same _ hflight => rw [hflight.2, hreleased (hflight.1.symm.trans hnone)]
    | begins _ hflight => have := hflight.2.1; omega
    | ends _ _ hflag => exact hflag
    | thrown hthrows _ _ => exact absurd hthrows hquiet
  · intro events m e m' hrun hstep hthrows later m'' hlater
    refine hlater.invariant (fun _ m => Leaked m) ?_ fun _ _ _ _ _ h hstep => h.step hstep
    cases flight_cases hstep with
    | same hquiet _ => exact absurd hthrows hquiet
    | begins hquiet _ => exact absurd hthrows hquiet
    | ends hquiet _ _ => exact absurd hthrows hquiet
    | thrown _ hpasses hflag =>
      rcases singleFlight_run hrun with hnone | ⟨hone, hrunning⟩
      · omega
      · exact ⟨by omega, hflag.trans hrunning⟩

/-- A pass whose provider asks for another pass, and a put whose handler throws. -/
theorem flag_released_unless_pass_throws_two_slots :
    ∃ (events : List MachineEvent) (m : Machine),
      Run QuietStep ⟨⟨twoSlots, .new 0 false, true⟩, [], .nothing⟩ events m ∧
      m.padded.ringBuffer.unreadUids = [7, 8] ∧ m.passes = 0 ∧ m.running = false := by
  let m₀ : Machine := ⟨⟨twoSlots, .new 0 false, true⟩, [], .nothing⟩
  let m₁ := m₀.paddingBuffer .code
  let m₂ := ({ m₁ with stack := [] } : Machine).provided .code (.ok [7, 8, 9])
  let m₃ := ({ m₂ with stack := [] } : Machine).putHandled (.ok ()) (some .code)
  let m₄ := m₃.put 9
  let m₅ := ({ m₄ with stack := [] } : Machine).putHandled (.error (.error "full")) none
  have hquiet (m : Machine) (e : MachineEvent) (h : m.stack = [] ∨
      ∀ error, e ≠ .provided (.error error) ∧ e ≠ .putHandled (.error error)) :
      ¬ThrowsIntoPass m e := by
    rintro ⟨⟨frame, hframe, -⟩, error, heq⟩
    rcases h with hempty | hanswer
    · simp [hempty] at hframe
    · exact heq.elim (hanswer error).1 (hanswer error).2
  have hrun : Run QuietStep m₀ [.paddingBuffer, .paddingBuffer, .provided (.ok [7, 8, 9]),
      .putHandled (.ok ()), .put 9] m₄ :=
    .cons ⟨.paddingBuffer, hquiet _ _ (by simp)⟩ (.cons ⟨.paddingBuffer, hquiet _ _ (by simp)⟩
      (.cons ⟨.provided rfl, hquiet _ _ (by simp)⟩ (.cons ⟨.putHandled rfl, hquiet _ _ (by simp)⟩
        (.cons ⟨.put, hquiet _ _ (by simp)⟩ .nil))))
  have houtside : ¬ThrowsIntoPass m₄ (.putHandled (.error (.error "full"))) := by
    rintro ⟨⟨frame, hframe, hpass⟩, -⟩
    rw [show m₄.stack = [.rejectedPutHandler none 9] from rfl, List.head?_cons,
      Option.mem_some_iff] at hframe
    rw [← hframe] at hpass
    cases hpass
  have hfull := hrun.snoc ⟨.putHandled (m := m₄) rfl, houtside⟩
  exact ⟨_, m₅, hfull, by decide, rfl, (flag_released_unless_pass_throws rfl).1 _ m₅ hfull rfl⟩

/-- The provider throws on its first call: the flag stays set without a pass, and the
next pass does not even ask the provider. -/
theorem pass_throws_and_flag_stays :
    ∃ (events : List MachineEvent) (m m' : Machine),
      Run MachineStep ⟨⟨twoSlots, .new 0 false, true⟩, [], .nothing⟩ events m ∧
      m.passes = 0 ∧ m.running = true ∧ MachineStep m .paddingBuffer m' ∧
      m'.stack = [] ∧ m'.padded = m.padded := by
  let m₀ : Machine := ⟨⟨twoSlots, .new 0 false, true⟩, [], .nothing⟩
  let m₁ := m₀.paddingBuffer .code
  let m₂ := ({ m₁ with stack := [] } : Machine).provided .code (.error (.error "no UIDs"))
  have hrun : Run MachineStep m₀ [.paddingBuffer, .provided (.error (.error "no UIDs"))] m₂ :=
    .cons .paddingBuffer (.cons (.provided rfl) .nil)
  exact ⟨_, m₂, m₂.paddingBuffer .code, hrun, rfl, rfl, .paddingBuffer, rfl, rfl⟩

end UID
