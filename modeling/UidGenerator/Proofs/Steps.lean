import UidGenerator.Spec.BufferPaddingExecutor

/-! What the operations of a padded ring can do, each said once: which calls they make of
one another, what they come to, and where they leave the ring and the executor. -/

namespace UID

variable {cb : Callbacks} {r r' : RingBuffer} {p p' : PaddedRing} {fuel : ℕ} {uid : ℤ} {uidList : List ℤ}

theorem put_steps {handler : RingBuffer → ℤ → Except Throwable Unit} {out : Except Throwable Bool}
    (h : r.put handler uid = (out, r')) :
    (r.tryPut uid = some r' ∧ out = .ok true) ∨
      (r.tryPut uid = none ∧ r' = r ∧ out = (handler r uid).map fun _ => false) := by
  unfold RingBuffer.put at h
  cases htry : r.tryPut uid with
  | some r₁ =>
    simp only [htry, Prod.mk.injEq] at h
    obtain ⟨rfl, rfl⟩ := h
    exact Or.inl ⟨rfl, rfl⟩
  | none =>
    cases hreject : handler r uid <;> simp only [htry, hreject, Prod.mk.injEq] at h <;>
      exact Or.inr ⟨rfl, h.2.symm, h.1.symm⟩

/-- The first UID of a second is put, or its reject ends the second. -/
theorem putAll_steps {out : Except Throwable Bool} (h : putAll cb r (uid :: uidList) = (out, r')) :
    (∃ r₁, r.tryPut uid = some r₁ ∧ putAll cb r₁ uidList = (out, r')) ∨
      (r.tryPut uid = none ∧ r' = r ∧ out = (cb.rejectedPutHandler r uid).map fun _ => true) := by
  unfold putAll at h
  cases hput : r.put cb.rejectedPutHandler uid with
  | mk accepted r₁ =>
    rcases put_steps hput with ⟨htry, rfl⟩ | ⟨htry, rfl, rfl⟩
    · simp only [hput] at h
      exact Or.inl ⟨r₁, htry, h⟩
    · right
      cases hreject : cb.rejectedPutHandler r₁ uid <;>
        simp only [hput, hreject, Except.map, Prod.mk.injEq] at h <;>
        exact ⟨htry, h.2.symm, h.1.symm⟩

inductive LoopSteps (cb : Callbacks) (p : PaddedRing) (fuel : ℕ) (out : Except Throwable Unit)
    (p' : PaddedRing) : Prop
  | threw (e : Throwable) (provided : cb.uidProvider p.nextSecond.executor.lastSecond = .error e)
      (outcome : out = .error e) (rest : p' = p.nextSecond)
  | stopped (uidList : List ℤ) (full : Except Throwable Bool) (r : RingBuffer)
      (provided : cb.uidProvider p.nextSecond.executor.lastSecond = .ok uidList)
      (puts : putAll cb p.ringBuffer uidList = (full, r)) (stop : full ≠ .ok false)
      (outcome : out = full.map fun _ => ()) (rest : p' = { p.nextSecond with ringBuffer := r })
  | more (uidList : List ℤ) (r : RingBuffer)
      (provided : cb.uidProvider p.nextSecond.executor.lastSecond = .ok uidList)
      (puts : putAll cb p.ringBuffer uidList = (.ok false, r))
      (loop : PaddedRing.paddingLoop cb fuel { p.nextSecond with ringBuffer := r } = some (out, p'))

theorem paddingLoop_steps {out : Except Throwable Unit}
    (h : p.paddingLoop cb (fuel + 1) = some (out, p')) : LoopSteps cb p fuel out p' := by
  simp only [PaddedRing.paddingLoop] at h
  cases hprov : cb.uidProvider p.nextSecond.executor.lastSecond with
  | error e =>
    simp only [hprov, Option.some.injEq, Prod.mk.injEq] at h
    exact .threw e hprov h.1.symm h.2.symm
  | ok uidList =>
    simp only [hprov] at h
    cases hputs : putAll cb p.nextSecond.ringBuffer uidList with
    | mk full r =>
      rcases full with e | _ | _
      · simp only [hputs, Option.some.injEq, Prod.mk.injEq] at h
        exact .stopped uidList _ r hprov hputs (by simp) h.1.symm h.2.symm
      · simp only [hputs] at h
        exact .more uidList r hprov hputs h
      · simp only [hputs, Option.some.injEq, Prod.mk.injEq] at h
        exact .stopped uidList _ r hprov hputs (by simp) h.1.symm h.2.symm

def PaddedRing.release (p : PaddedRing) : Except Throwable Unit → PaddedRing
  | .ok () => p.setRunning false
  | .error _ => p

theorem release_ringBuffer (p : PaddedRing) (out : Except Throwable Unit) :
    (p.release out).ringBuffer = p.ringBuffer := by
  cases out <;> rfl

/-- A pass does nothing while another runs. -/
theorem paddingBuffer_steps {out : Except Throwable Unit}
    (h : p.paddingBuffer cb fuel = some (out, p')) :
    (p.executor.running = true ∧ out = .ok () ∧ p' = p) ∨
      (p.executor.running = false ∧ ∃ mid, (p.setRunning true).paddingLoop cb fuel = some (out, mid) ∧
        p' = mid.release out) := by
  unfold PaddedRing.paddingBuffer at h
  split_ifs at h with hrunning
  · simp only [Option.some.injEq, Prod.mk.injEq] at h
    exact Or.inl ⟨hrunning, h.1.symm, h.2.symm⟩
  · rw [Bool.not_eq_true] at hrunning
    cases hloop : (p.setRunning true).paddingLoop cb fuel with
    | none => simp [hloop] at h
    | some result =>
      obtain ⟨out', mid⟩ := result
      cases out' <;> simp only [hloop, Option.some.injEq, Prod.mk.injEq] at h <;>
        obtain ⟨rfl, rfl⟩ := h <;> exact Or.inr ⟨hrunning, mid, rfl, rfl⟩

theorem asyncPadding_cases {fuel : ℕ} {out : Except Throwable Unit}
    (h : p.asyncPadding cb fuel = some (out, p')) :
    (p.executor.bufferPadExecutorsShutdown = true ∧ out = .error taskRejected ∧ p' = p) ∨
      (p.executor.bufferPadExecutorsShutdown = false ∧ out = .ok () ∧
        ∃ out', p.paddingBuffer cb fuel = some (out', p')) := by
  unfold PaddedRing.asyncPadding at h
  split_ifs at h with hshut
  · simp only [Option.some.injEq, Prod.mk.injEq] at h
    exact Or.inl ⟨hshut, h.1.symm, h.2.symm⟩
  · right
    cases hpad : p.paddingBuffer cb fuel with
    | none => simp [hpad] at h
    | some result =>
      simp only [hpad, Option.some.injEq, Prod.mk.injEq] at h
      exact ⟨by simpa using hshut, h.1.symm, result.1, by rw [← h.2]⟩

/-- The remaining UIDs are below the threshold, and there is an executor to tell. -/
def Triggers (p : PaddedRing) (nextCursor : ℤ) : Prop :=
  p.ringBuffer.tail - nextCursor < p.ringBuffer.paddingThreshold ∧ p.attached = true

instance (p : PaddedRing) (nextCursor : ℤ) : Decidable (Triggers p nextCursor) :=
  inferInstanceAs (Decidable (_ ∧ _))

theorem triggerPadding_cases {fuel : ℕ} {nextCursor : ℤ} {out : Except Throwable Unit}
    (h : p.triggerPadding cb fuel nextCursor = some (out, p')) :
    (¬Triggers p nextCursor ∧ out = .ok () ∧ p' = p) ∨
      (Triggers p nextCursor ∧ p.executor.bufferPadExecutorsShutdown = true ∧
        out = .error taskRejected ∧ p' = p) ∨
      (Triggers p nextCursor ∧ p.executor.bufferPadExecutorsShutdown = false ∧ out = .ok () ∧
        ∃ out', p.paddingBuffer cb fuel = some (out', p')) := by
  unfold PaddedRing.triggerPadding at h
  split_ifs at h with htrigger
  · rcases asyncPadding_cases h with ⟨hshut, hout, hp⟩ | ⟨hlive, hout, hpad⟩
    · exact Or.inr (Or.inl ⟨htrigger, hshut, hout, hp⟩)
    · exact Or.inr (Or.inr ⟨htrigger, hlive, hout, hpad⟩)
  · simp only [Option.some.injEq, Prod.mk.injEq] at h
    exact Or.inl ⟨htrigger, h.1.symm, h.2.symm⟩

/-- `p` with the cursor moved to `nextCursor`, as `take` leaves it to the padding pass. -/
def moveCursor (p : PaddedRing) (nextCursor : ℤ) : PaddedRing :=
  { p with ringBuffer := { p.ringBuffer with cursor := nextCursor } }

theorem moveCursor_tail (p : PaddedRing) (nextCursor : ℤ) :
    (moveCursor p nextCursor).ringBuffer.tail = p.ringBuffer.tail := rfl

theorem moveCursor_executor (p : PaddedRing) (nextCursor : ℤ) :
    (moveCursor p nextCursor).executor = p.executor := rfl

/-- The reject handler throws, or the slot is read. -/
theorem readSlot_steps {currentCursor nextCursor : ℤ} {outcome : Except Throwable ℤ}
    (h : p.readSlot cb currentCursor nextCursor = (outcome, p')) :
    (∃ e, nextCursor = currentCursor ∧ cb.rejectedTakeHandler p.ringBuffer = .error e ∧
        outcome = .error e ∧ p' = p) ∨
      ((nextCursor = currentCursor → cb.rejectedTakeHandler p.ringBuffer = .ok ()) ∧
        ∃ r, p.ringBuffer.finish nextCursor = (outcome, r) ∧ p' = { p with ringBuffer := r }) := by
  unfold PaddedRing.readSlot at h
  split_ifs at h with hempty
  · cases hreject : cb.rejectedTakeHandler p.ringBuffer with
    | error e =>
      simp only [hreject, Prod.mk.injEq] at h
      exact Or.inl ⟨e, hempty, rfl, h.1.symm, h.2.symm⟩
    | ok _ =>
      simp only [hreject, Prod.mk.injEq] at h
      exact Or.inr ⟨fun _ => rfl, _, Prod.ext h.1 rfl, h.2.symm⟩
  · simp only [Prod.mk.injEq] at h
    exact Or.inr ⟨fun heq => absurd heq hempty, _, Prod.ext h.1 rfl, h.2.symm⟩

inductive TakeSteps (cb : Callbacks) (p : PaddedRing) (nextCursor : ℤ) (fuel : ℕ)
    (outcome : Except Throwable ℤ) (p' : PaddedRing) : Prop
  | back (back : nextCursor < p.ringBuffer.cursor)
      (outcome : outcome = .error (.illegalArgument "Curosr can't move back"))
      (rest : p' = moveCursor p nextCursor)
  | refused (e : Throwable) (forward : p.ringBuffer.cursor ≤ nextCursor)
      (padding : (moveCursor p nextCursor).triggerPadding cb fuel nextCursor = some (.error e, p'))
      (outcome : outcome = .error e)
  | read (mid : PaddedRing) (forward : p.ringBuffer.cursor ≤ nextCursor)
      (padding : (moveCursor p nextCursor).triggerPadding cb fuel nextCursor = some (.ok (), mid))
      (read : mid.readSlot cb p.ringBuffer.cursor nextCursor = (outcome, p'))

theorem take_eq (cb : Callbacks) (fuel : ℕ) (p : PaddedRing) :
    p.take cb fuel =
      match isTrue (p.ringBuffer.claim.1 ≥ p.ringBuffer.cursor) "Curosr can't move back" with
      | .error e => some (.error e, moveCursor p p.ringBuffer.claim.1)
      | .ok () =>
        match (moveCursor p p.ringBuffer.claim.1).triggerPadding cb fuel p.ringBuffer.claim.1 with
        | none => none
        | some (.error e, p) => some (.error e, p)
        | some (.ok (), mid) => some (mid.readSlot cb p.ringBuffer.cursor p.ringBuffer.claim.1) :=
  rfl

theorem take_steps {outcome : Except Throwable ℤ} (h : p.take cb fuel = some (outcome, p')) :
    TakeSteps cb p p.ringBuffer.claim.1 fuel outcome p' := by
  rw [take_eq] at h
  generalize p.ringBuffer.claim.1 = nextCursor at h ⊢
  by_cases hforward : nextCursor ≥ p.ringBuffer.cursor
  · simp only [isTrue, if_pos hforward] at h
    cases htrigger : (moveCursor p nextCursor).triggerPadding cb fuel nextCursor with
    | none => simp [htrigger] at h
    | some result =>
      obtain ⟨out, mid⟩ := result
      cases out with
      | error e =>
        simp only [htrigger, Option.some.injEq, Prod.mk.injEq] at h
        obtain ⟨rfl, rfl⟩ := h
        exact .refused e hforward htrigger rfl
      | ok _ =>
        simp only [htrigger, Option.some.injEq] at h
        exact .read mid hforward htrigger h
  · simp only [isTrue, if_neg hforward, Option.some.injEq, Prod.mk.injEq] at h
    exact .back (not_le.1 hforward) h.1.symm h.2.symm

end UID
