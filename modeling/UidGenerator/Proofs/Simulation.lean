import UidGenerator.Spec.Reentrancy
import UidGenerator.Proofs.Steps

/-! The model without re-entrant calls inside the one with a call stack. Where the
provider and the handlers only answer, a pass or a take of a `PaddedRing` is a run of
the machine with these answers, to the same state and the same reply. -/

namespace UID

open Transition

/-- The answer that `cb` gives to the function on top of the stack. -/
inductive Answers (cb : Callbacks) (m : Machine) : MachineEvent → Prop
  | provided : Answers cb m (.provided (cb.uidProvider m.padded.executor.lastSecond))
  | putHandled {pass : Option Caller} {uid : ℤ} {stack : List Frame}
      (top : m.stack = .rejectedPutHandler pass uid :: stack) :
      Answers cb m (.putHandled (cb.rejectedPutHandler m.padded.ringBuffer uid))
  | takeHandled : Answers cb m (.takeHandled (cb.rejectedTakeHandler m.padded.ringBuffer))

def AnswerStep (cb : Callbacks) (m : Machine) (e : MachineEvent) (m' : Machine) : Prop :=
  MachineStep m e m' ∧ Answers cb m e

def Asks (cb : Callbacks) (m : Machine) (call : UserCall) (m' : Machine) : Prop :=
  m.userCall = some call ∧ ∃ e, AnswerStep cb m e m'

/-- The machine has come to `m'` with the answers of `cb`. -/
def Reaches (cb : Callbacks) (m m' : Machine) : Prop := ∃ events, Run (AnswerStep cb) m events m'

variable {cb : Callbacks} {p p' : PaddedRing} {r : RingBuffer} {stack : List Frame} {reply : Reply}
  {fuel : ℕ}

theorem Reaches.refl (cb : Callbacks) (m : Machine) : Reaches cb m m := ⟨[], .nil⟩

theorem Reaches.head {m₁ m₂ m₃ : Machine} {e : MachineEvent} (h : AnswerStep cb m₁ e m₂)
    (h' : Reaches cb m₂ m₃) : Reaches cb m₁ m₃ := by
  obtain ⟨events, hrun⟩ := h'
  exact ⟨e :: events, .cons h hrun⟩

theorem Reaches.trans {m₁ m₂ m₃ : Machine} (h : Reaches cb m₁ m₂) (h' : Reaches cb m₂ m₃) :
    Reaches cb m₁ m₃ := by
  obtain ⟨events, hrun⟩ := h
  obtain ⟨later, hlater⟩ := h'
  exact ⟨events ++ later, run_append.2 ⟨m₂, hrun, hlater⟩⟩

theorem Machine.leavePass_reply (out : Except Throwable Unit) (caller : Caller) :
    Machine.leavePass ⟨p, stack, reply⟩ out caller = Machine.leavePass ⟨p, stack, .nothing⟩ out caller := by
  cases caller with
  | take currentCursor nextCursor =>
    simp only [Machine.leavePass, Machine.readSlot]
    split_ifs <;> rfl
  | _ => rfl

/-- A pass puts the UIDs of a second up to the first that is rejected. -/
theorem putAll_machine (p : PaddedRing) (stack : List Frame) (caller : Caller) {uidList : List ℤ}
    {out : Except Throwable Bool} (h : putAll cb p.ringBuffer uidList = (out, r)) :
    (out = .ok false ∧ Machine.putAll ⟨p, stack, .nothing⟩ caller uidList =
        Machine.askProvider ⟨{ p with ringBuffer := r }, stack, .nothing⟩ caller) ∨
      ∃ uid, out = (cb.rejectedPutHandler r uid).map (fun _ => true) ∧
        Machine.putAll ⟨p, stack, .nothing⟩ caller uidList =
          ⟨{ p with ringBuffer := r }, .rejectedPutHandler (some caller) uid :: stack, .nothing⟩ := by
  induction uidList generalizing p with
  | nil =>
    simp only [putAll, Prod.mk.injEq] at h
    obtain ⟨rfl, rfl⟩ := h
    exact Or.inl ⟨rfl, rfl⟩
  | cons uid uidList ih =>
    unfold Machine.putAll
    rcases putAll_steps h with ⟨r₁, htry, hputs⟩ | ⟨htry, rfl, rfl⟩
    · simp only [htry]
      exact ih { p with ringBuffer := r₁ } hputs
    · simp only [htry]
      exact Or.inr ⟨uid, rfl, rfl⟩

theorem paddingLoop_machine (caller : Caller) {out : Except Throwable Unit}
    (h : p.paddingLoop cb fuel = some (out, p')) :
    Reaches cb (Machine.askProvider ⟨p, stack, .nothing⟩ caller)
      (Machine.leavePass ⟨p'.release out, stack, .nothing⟩ out caller) := by
  induction fuel generalizing p with
  | zero => simp [PaddedRing.paddingLoop] at h
  | succ fuel ih =>
    have hask : AnswerStep cb (Machine.askProvider ⟨p, stack, .nothing⟩ caller) _ _ :=
      ⟨.provided rfl, .provided⟩
    apply Reaches.head hask
    rw [show (Machine.askProvider ⟨p, stack, .nothing⟩ caller).padded = p.nextSecond from rfl]
    cases paddingLoop_steps h with
    | threw e hprov hout hrest =>
      rw [hprov, hout, hrest]
      exact .refl cb _
    | more uidList r hprov hputs hloop =>
      rw [hprov, Machine.provided]
      rcases putAll_machine p.nextSecond stack caller hputs with ⟨-, heq⟩ | ⟨uid, hout, -⟩
      · exact heq ▸ ih hloop
      · cases hreject : cb.rejectedPutHandler r uid <;> simp [hreject, Except.map] at hout
    | stopped uidList full r hprov hputs hstop hout hrest =>
      rw [hprov, Machine.provided]
      rcases putAll_machine p.nextSecond stack caller hputs with ⟨hfits, -⟩ | ⟨uid, rfl, heq⟩
      · exact absurd hfits hstop
      · have hanswer : AnswerStep cb ⟨{ p.nextSecond with ringBuffer := r },
            .rejectedPutHandler (some caller) uid :: stack, .nothing⟩ _ _ :=
          ⟨.putHandled rfl, .putHandled rfl⟩
        rw [hout, hrest]
        refine heq ▸ .head hanswer ?_
        change Reaches cb (Machine.putHandled ⟨{ p.nextSecond with ringBuffer := r }, stack,
          .nothing⟩ (cb.rejectedPutHandler r uid) (some caller)) _
        cases cb.rejectedPutHandler r uid <;> exact .refl cb _

/-- A pass of the model without re-entrant calls is a pass of the machine. -/
theorem paddingBuffer_machine (caller : Caller) {out : Except Throwable Unit}
    (h : p.paddingBuffer cb fuel = some (out, p')) :
    Reaches cb (Machine.paddingBuffer ⟨p, stack, reply⟩ caller)
      (Machine.leavePass ⟨p', stack, .nothing⟩ out caller) := by
  have hflag : Machine.running ⟨p, stack, reply⟩ = p.executor.running := rfl
  rcases paddingBuffer_steps h with ⟨hrunning, rfl, rfl⟩ | ⟨hidle, mid, hloop, rfl⟩
  · rw [Machine.paddingBuffer, hflag, if_pos hrunning, Machine.leavePass_reply]
    exact .refl cb _
  · rw [Machine.paddingBuffer, hflag, if_neg (by rw [hidle]; decide)]
    exact paddingLoop_machine caller hloop

theorem readSlot_machine {currentCursor nextCursor : ℤ} {outcome : Except Throwable ℤ}
    (h : p.readSlot cb currentCursor nextCursor = (outcome, p')) :
    Reaches cb (Machine.readSlot ⟨p, stack, reply⟩ currentCursor nextCursor)
      ⟨p', stack, .uid outcome⟩ := by
  have hanswer : AnswerStep cb
      (Machine.wait ⟨p, stack, reply⟩ (.rejectedTakeHandler nextCursor)) _ _ :=
    ⟨.takeHandled rfl, .takeHandled⟩
  have hring : (Machine.wait ⟨p, stack, reply⟩ (.rejectedTakeHandler nextCursor)).padded = p := rfl
  rw [hring] at hanswer
  unfold Machine.readSlot
  rcases readSlot_steps h with ⟨e, hempty, hreject, rfl, rfl⟩ | ⟨hreject, r, hfinish, rfl⟩
  · rw [if_pos hempty]
    rw [hreject] at hanswer
    exact .head hanswer (.refl cb _)
  · obtain ⟨rfl, rfl⟩ := Prod.mk.inj hfinish.symm
    split_ifs with hempty
    · rw [hreject hempty] at hanswer
      exact .head hanswer (.refl cb _)
    · exact .refl cb _

theorem Machine.take_eq (p : PaddedRing) (stack : List Frame) (reply : Reply) :
    Machine.take ⟨p, stack, reply⟩ =
      match isTrue (p.ringBuffer.claim.1 ≥ p.ringBuffer.cursor) "Curosr can't move back" with
      | .error e => ⟨moveCursor p p.ringBuffer.claim.1, stack, .uid (.error e)⟩
      | .ok () =>
        if Triggers (moveCursor p p.ringBuffer.claim.1) p.ringBuffer.claim.1 then
          if p.executor.bufferPadExecutorsShutdown then
            ⟨moveCursor p p.ringBuffer.claim.1, stack, .uid (.error taskRejected)⟩
          else Machine.paddingBuffer ⟨moveCursor p p.ringBuffer.claim.1, stack, reply⟩
            (.take p.ringBuffer.cursor p.ringBuffer.claim.1)
        else Machine.readSlot ⟨moveCursor p p.ringBuffer.claim.1, stack, reply⟩ p.ringBuffer.cursor
          p.ringBuffer.claim.1 :=
  rfl

/-- A take of the model without re-entrant calls is a take of the machine. -/
theorem take_machine {outcome : Except Throwable ℤ} (h : p.take cb fuel = some (outcome, p')) :
    Reaches cb (Machine.take ⟨p, stack, reply⟩) ⟨p', stack, .uid outcome⟩ := by
  have hsteps := take_steps h
  rw [Machine.take_eq]
  generalize p.ringBuffer.claim.1 = nextCursor at hsteps ⊢
  cases hsteps with
  | back hback hout hrest =>
    rw [isTrue, if_neg (not_le.2 hback), hout, hrest]
    exact .refl cb _
  | refused e hforward hpadding hout =>
    rw [isTrue, if_pos hforward]
    rcases triggerPadding_cases hpadding with ⟨-, hok, -⟩ | ⟨htrigger, hshut, herror, rfl⟩ |
      ⟨-, -, hok, -⟩
    · cases hok
    · obtain rfl := Except.error.inj herror
      rw [moveCursor_executor] at hshut
      simp only [if_pos htrigger, if_pos hshut, hout]
      exact .refl cb _
    · cases hok
  | read mid hforward hpadding hread =>
    rw [isTrue, if_pos hforward]
    rcases triggerPadding_cases hpadding with ⟨hquiet, -, rfl⟩ | ⟨-, -, herror, -⟩ |
      ⟨htrigger, hlive, -, out, hpad⟩
    · simp only [if_neg hquiet]
      exact readSlot_machine hread
    · cases herror
    · rw [moveCursor_executor] at hlive
      simp only [if_pos htrigger, hlive, Bool.false_eq_true, if_false]
      exact (paddingBuffer_machine (.take p.ringBuffer.cursor nextCursor) hpad).trans
        (readSlot_machine hread)

end UID
