import UidGenerator.Proofs.Padding
import UidGenerator.Lib.Run

/-! Runs of a ring with its padding executor. The queue in the ring survives every
step; a take that fails drops a UID from the unread ones exactly when it has moved
the cursor before it fails. -/

namespace UID

open RingQueue RingBuffer Transition

variable {cb : Callbacks} {r : RingBuffer} {p p' : PaddedRing} {uids : List ℤ} {claimed : ℕ}
  {pending : Finset ℕ} {events : List PaddedEvent}

namespace RingBuffer

def unreadCount (r : RingBuffer) : ℕ := (toUnsignedLong (r.tail - r.cursor)).toNat

/-- The slot that a take would read after `i` others. -/
def unreadIndex (r : RingBuffer) (i : ℕ) : ℤ := r.calSlotIndex (r.cursor + 1 + i)

/-- The UIDs that takes would read, in their order. -/
def unreadUids (r : RingBuffer) : List ℤ :=
  (List.range r.unreadCount).map fun i => r.slots (r.unreadIndex i)

def FlagsConsistent (r : RingBuffer) : Prop :=
  ∀ i < r.unreadCount, r.flags (r.unreadIndex i) = CAN_TAKE_FLAG

theorem Represents.unreadCount_eq (h : Represents r uids claimed pending) :
    r.unreadCount = uids.length - claimed := by
  have hclaimed := h.claimed_le
  have hlen := h.length_le
  have hsize := r.bufferSize_lt
  have htail := toLong_emod (uids.length - 1)
  have hcursor := toLong_emod (claimed - 1)
  rw [← h.tail] at htail
  rw [← h.cursor] at hcursor
  simp only [unreadCount, toUnsignedLong, LONG_BITS]
  omega

theorem Represents.unreadIndex_eq (h : Represents r uids claimed pending) (i : ℕ) :
    r.unreadIndex i = r.slot (claimed + i) := by
  rw [unreadIndex, calSlotIndex_eq, h.cursor, add_assoc, Int.add_emod, toLong_emod_bufferSize,
    ← Int.add_emod, slot]
  congr 1
  push_cast
  ring

theorem Represents.read (h : Represents r uids claimed pending) {i : ℕ}
    (hi : i < uids.length - claimed) :
    r.flags (r.unreadIndex i) = CAN_TAKE_FLAG ∧
      uids[claimed + i]? = some (r.slots (r.unreadIndex i)) := by
  have hstored := h.stored (claimed + i) (mem_unread.2 (Or.inr ⟨by omega, by omega⟩))
  rw [← h.unreadIndex_eq, List.getElem?_eq_getElem (by omega), cell] at hstored
  by_cases hflag : r.flags (r.unreadIndex i) = CAN_TAKE_FLAG
  · rw [if_pos hflag] at hstored
    exact ⟨hflag, by rw [List.getElem?_eq_getElem (by omega), hstored]⟩
  · rw [if_neg hflag] at hstored
    cases hstored

theorem Represents.unreadUids_eq (h : Represents r uids claimed pending) :
    r.unreadUids = uids.drop claimed := by
  apply List.ext_getElem?
  intro i
  rw [List.getElem?_drop, unreadUids, h.unreadCount_eq]
  by_cases hi : i < uids.length - claimed
  · rw [(h.read hi).2]
    simp [hi]
  · rw [List.getElem?_eq_none (by simpa using hi), List.getElem?_eq_none (by omega)]

theorem Represents.flagsConsistent (h : Represents r uids claimed pending) : r.FlagsConsistent := by
  intro i hi
  rw [h.unreadCount_eq] at hi
  exact (h.read hi).1

end RingBuffer

/-- With the reject handlers that the ring starts with. -/
def defaultCallbacks (uidProvider : ℤ → Except Throwable (List ℤ)) : Callbacks where
  uidProvider := uidProvider

def HoldsQueue (r : RingBuffer) : Prop :=
  ∃ uids claimed pending, Represents r uids claimed pending

theorem HoldsQueue.padding (h : HoldsQueue p.ringBuffer) {fuel : ℕ} {out : Except Throwable Unit}
    (hpad : p.paddingBuffer cb fuel = some (out, p')) : HoldsQueue p'.ringBuffer := by
  obtain ⟨uids, claimed, pending, hrep⟩ := h
  obtain ⟨k, added, hborrows, -⟩ := paddingBuffer_cases hrep hpad
  exact ⟨_, claimed, pending, hborrows.ring.represents⟩

theorem HoldsQueue.step {uidProvider : ℤ → Except Throwable (List ℤ)} {e : PaddedEvent}
    (h : HoldsQueue p.ringBuffer) (hstep : PaddedStep (defaultCallbacks uidProvider) p e p') :
    HoldsQueue p'.ringBuffer := by
  cases event_cases hstep with
  | put uid out r _ hput hstate =>
    obtain ⟨uids, claimed, pending, hrep⟩ := h
    subst hstate
    rcases put_cases hrep hput with ⟨-, hext⟩ | ⟨-, rfl, -⟩
    · exact ⟨_, claimed, pending, hext.represents⟩
    · exact ⟨uids, claimed, pending, hrep⟩
  | take fuel outcome _ htake =>
    obtain ⟨uids, claimed, pending, hrep⟩ := h
    cases take_cases hrep rfl htake with
    | lost e _ _ _ hring _ => exact ⟨_, _, _, hring⟩
    | rejected e _ _ k added hborrows => exact ⟨_, _, _, hborrows.ring.represents⟩
    | taken uid k added mid _ _ _ _ _ _ hring _ _ _ _ => exact ⟨_, _, _, hring⟩
  | pass first last fuel out _ hbefore hpad hafter =>
    rw [hafter.1]
    exact HoldsQueue.padding (by rwa [hbefore.1]) hpad
  | same _ hqueue => rwa [hqueue.1]

theorem holdsQueue_run {uidProvider : ℤ → Except Throwable (List ℤ)} {bufferSize : ℤ}
    {paddingFactor : ℚ} {executor : BufferPaddingExecutor} {attached : Bool}
    (hnew : RingBuffer.new bufferSize paddingFactor = .ok r)
    (hrun : Run (PaddedStep (defaultCallbacks uidProvider)) ⟨r, executor, attached⟩ events p) :
    HoldsQueue p.ringBuffer :=
  hrun.invariant (fun _ p => HoldsQueue p.ringBuffer) ⟨_, _, _, (represents_new hnew).1⟩
    fun _ _ _ _ _ h hstep => h.step hstep

/-- A failed take keeps every unread UID, unless it fails after it has moved the
cursor to one; a take that does not fail returns the first unread UID. -/
theorem failed_takes_keep_unread {uidProvider : ℤ → Except Throwable (List ℤ)} {bufferSize : ℤ}
    {paddingFactor : ℚ} {executor : BufferPaddingExecutor} {attached : Bool}
    {outcome : Except Throwable ℤ} (hnew : RingBuffer.new bufferSize paddingFactor = .ok r)
    (hrun : Run (PaddedStep (defaultCallbacks uidProvider)) ⟨r, executor, attached⟩ events p)
    (htake : PaddedStep (defaultCallbacks uidProvider) p (.take outcome) p') :
    (((∃ e, outcome = .error e) →
        (∃ added, p'.ringBuffer.unreadUids = p.ringBuffer.unreadUids ++ added) ∧
          p'.ringBuffer.FlagsConsistent) ↔ ¬Loses p) ∧
      ∀ uid, outcome = .ok uid →
        ∃ added, p.ringBuffer.unreadUids ++ added = uid :: p'.ringBuffer.unreadUids := by
  obtain ⟨uids, claimed, pending, hrep⟩ := holdsQueue_run hnew hrun
  cases htake with
  | take htake =>
    cases take_cases hrep rfl htake with
    | lost e hout havailable hloses hring =>
      refine ⟨iff_of_false ?_ (not_not.2 hloses), by simp [hout]⟩
      intro hkeeps
      obtain ⟨⟨added, heq⟩, -⟩ := hkeeps ⟨e, hout⟩
      rw [hring.unreadUids_eq, hrep.unreadUids_eq] at heq
      have hlen := congrArg List.length heq
      simp only [List.length_append, List.length_drop] at hlen
      omega
    | rejected e hout hempty k added hborrows =>
      have hrep' := hborrows.ring.represents
      refine ⟨iff_of_true (fun _ => ⟨⟨added.map toLong, ?_⟩, hrep'.flagsConsistent⟩) ?_,
        by simp [hout]⟩
      · rw [hrep'.unreadUids_eq, hrep.unreadUids_eq, List.drop_append_of_le_length hempty.le]
      · exact fun hloses => hloses.1 (hrep.cursor_eq_tail_iff.2 hempty)
    | taken uid k added mid hout hstored hkeeps _ _ _ hring _ _ _ _ =>
      refine ⟨iff_of_true (by simp [hout]) hkeeps, ?_⟩
      rintro uid' huid
      rw [hout, Except.ok.injEq] at huid
      obtain ⟨hlt, hget⟩ := List.getElem?_eq_some_iff.1 hstored
      refine ⟨added.map toLong, ?_⟩
      rw [hring.unreadUids_eq, hrep.unreadUids_eq, ← huid, ← hget,
        List.drop_append_of_le_length (by omega), ← List.cons_append, ← List.drop_eq_getElem_cons]

def noProvider (_ : ℤ) : Except Throwable (List ℤ) := .error (.error "no UIDs")

def twoUids (second : ℤ) : Except Throwable (List ℤ) := .ok [2 * second, 2 * second + 1]

/-- The take of an empty ring throws after its pass has filled both slots. -/
theorem failed_takes_keep_unread_filled :
    ∃ (p p' : PaddedRing) (e : Throwable),
      PaddedStep (defaultCallbacks twoUids) p (.take (.error e)) p' ∧
      p.ringBuffer.unreadUids = [] ∧ p'.ringBuffer.unreadUids = [2, 3] ∧
      (∃ added, p'.ringBuffer.unreadUids = p.ringBuffer.unreadUids ++ added) ∧
      p'.ringBuffer.FlagsConsistent := by
  let p : PaddedRing := { ringBuffer := twoSlots, executor := .new 0 false }
  have htake : PaddedStep (defaultCallbacks twoUids) p (.take (.error _)) _ :=
    .take (show p.take (defaultCallbacks twoUids) 3 = some _ from rfl)
  have hkeeps : ¬Loses p := fun h => h.1 rfl
  exact ⟨p, _, _, htake, by decide, by decide +kernel,
    (failed_takes_keep_unread new_two_fifty .nil htake).1.2 hkeeps ⟨_, rfl⟩⟩

/-- After a shutdown the second take throws, and its UID is no longer unread. -/
theorem failed_take_consumes_uid :
    ∃ (events : List PaddedEvent) (p p' : PaddedRing) (e : Throwable),
      Run (PaddedStep (defaultCallbacks noProvider)) ⟨twoSlots, .new 0 false, true⟩ events p ∧
      PaddedStep (defaultCallbacks noProvider) p (.take (.error e)) p' ∧
      p.ringBuffer.unreadUids = [8] ∧ p'.ringBuffer.unreadUids = [] := by
  let cb := defaultCallbacks noProvider
  let r := ((twoSlots.put discardPutBuffer 7).2.put discardPutBuffer 8).2
  let p₁ : PaddedRing := { ringBuffer := r, executor := .new 0 false }
  let p₂ := ((p₁.shutdown.take cb 0).map Prod.snd).getD p₁
  have hrun : Run (PaddedStep cb) ⟨twoSlots, .new 0 false, true⟩
      [.put 7 (.ok true), .put 8 (.ok true), .shutdown, .take (.ok 7)] p₂ :=
    .cons (.put rfl) (.cons (.put rfl) (.cons .shutdown (.cons
      (.take (show p₁.shutdown.take cb 0 = some (.ok 7, p₂) from rfl)) .nil)))
  have htake : PaddedStep cb p₂ (.take (.error taskRejected)) _ :=
    .take (show p₂.take cb 0 = some _ from rfl)
  exact ⟨_, p₂, _, taskRejected, hrun, htake, by decide, by decide⟩

end UID
