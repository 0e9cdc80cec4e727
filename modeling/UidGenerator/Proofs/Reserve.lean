import UidGenerator.Proofs.EmptyTakes

/-! The reserve that a live executor keeps. A pass leaves `bufferSize - 1` UIDs ahead of
the cursor, and a take that asks for none leaves as many as the threshold. -/

namespace UID

open RingQueue Transition RingBuffer

variable {cb : Callbacks} {r r' : RingBuffer} {p p' : PaddedRing} {held : Set ℤ} {uids : List ℤ}
  {taken fuel : ℕ} {bufferSize paddingThreshold : ℤ}

/-- A reliable pass ends idle and leaves no room. -/
theorem paddingBuffer_full (hcb : Reliable cb) (h : Admits p.ringBuffer held)
    (hheld : ∀ c ∈ held, c = p.ringBuffer.cursor)
    (hbound : p.ringBuffer.cursor + p.ringBuffer.bufferSize ≤ 2 ^ 63)
    (hidle : p.executor.running = false) {out : Except Throwable Unit}
    (hpad : p.paddingBuffer cb fuel = some (out, p')) :
    p'.executor.running = false ∧ p'.ringBuffer.room = 0 := by
  obtain ⟨k, calls, mid, hk, -, hpass, rfl⟩ :=
    paddingBuffer_passes h hheld (h.tail_add_room hbound) hidle hpad
  obtain ⟨uid, -, hnext, -, rfl⟩ := hpass.ends_full hcb.provides
  have hroom : mid.ringBuffer.room = 0 := by
    rw [hpass.room_iff hk]
    refine ⟨k, (List.getElem?_eq_some_iff.1 hnext).1.le, fun j _ _ => ?_⟩
    obtain ⟨uidList, hok, -⟩ := hcb.provides (toLong (p.executor.lastSecond + j))
    exact ⟨uidList, hok⟩
  rw [hcb.discards]
  exact ⟨rfl, hroom⟩

/-- A padded ring with its executor live and idle, between takes. -/
structure Reserved (bufferSize paddingThreshold : ℤ) (uids : List ℤ) (taken : ℕ) (p : PaddedRing) :
    Prop where
  serves : Serves p.ringBuffer uids taken
  size : p.ringBuffer.bufferSize = bufferSize
  threshold : p.ringBuffer.paddingThreshold = paddingThreshold
  idle : p.executor.running = false
  live : p.executor.bufferPadExecutorsShutdown = false
  attached : p.attached = true
  started : 0 ≤ p.ringBuffer.tail

/-- A full ring is as far ahead as it can be. -/
theorem RingBuffer.Admits.ahead (h : Admits r held) (h0 : 0 ≤ r.cursor) :
    r.tail - r.cursor ≤ r.bufferSize - 1 ∧
      (r.room = 0 → r.tail - r.cursor = r.bufferSize - 1) := by
  have hle := h.distance_le
  have hroom := h.room_eq
  rw [h.distance_eq] at hle
  rw [max_eq_left h0] at hle hroom
  exact ⟨hle, fun hzero => by omega⟩

theorem Reserved.padding (h : Reserved bufferSize paddingThreshold uids taken p) (hcb : Reliable cb)
    (hbound : p.ringBuffer.cursor + bufferSize ≤ 2 ^ 63) {out : Except Throwable Unit}
    (hpad : p.paddingBuffer cb fuel = some (out, p')) :
    ∃ uids', Reserved bufferSize paddingThreshold uids' taken p' := by
  have hadmits := h.serves.admits
  rw [← h.size] at hbound
  obtain ⟨uidList, hpadded⟩ := paddingBuffer_padded hadmits (by simp) hbound hpad
  obtain ⟨hidle, -⟩ := paddingBuffer_full hcb hadmits (by simp) hbound h.idle hpad
  have hfills := hpadded.fills
  have htail := hfills.tail
  have hstarted := h.started
  exact ⟨_, h.serves.fills hfills, hfills.shape.1.trans h.size, hfills.shape.2.trans h.threshold,
    hidle, hpadded.shutdown.trans h.live, hpadded.attached.trans h.attached, by omega⟩

/-- A take of an empty ring that was padded before throws. -/
theorem Reserved.take_of_empty (h : Reserved bufferSize paddingThreshold uids taken p)
    (hcb : Reliable cb) (hbound : p.ringBuffer.cursor + bufferSize ≤ 2 ^ 63)
    (hempty : p.ringBuffer.cursor = p.ringBuffer.tail) {outcome : Except Throwable ℤ}
    (htake : p.take cb fuel = some (outcome, p')) :
    (∃ e, outcome = .error e) ∧ ∃ uids', Reserved bufferSize paddingThreshold uids' taken p' := by
  obtain ⟨out, mid, htrigger, hrest⟩ := take_stuck h.serves.admits hempty htake
  have hmid : ∃ uids', Reserved bufferSize paddingThreshold uids' taken mid := by
    rcases triggerPadding_cases htrigger with ⟨-, -, rfl⟩ | ⟨-, -, -, rfl⟩ | ⟨-, -, -, out', hpad⟩
    · exact ⟨uids, h⟩
    · exact ⟨uids, h⟩
    · exact h.padding hcb hbound hpad
  rcases hrest with ⟨e, -, rfl, rfl⟩ | ⟨-, r, hfinish, rfl⟩
  · exact ⟨⟨e, rfl⟩, hmid⟩
  · obtain ⟨uids', hserved⟩ := hmid
    have hcursor : mid.ringBuffer.cursor = p.ringBuffer.cursor :=
      hserved.serves.cursor.trans h.serves.cursor.symm
    have hstarted := h.started
    have hfree := hserved.serves.admits.cursor_free (by omega)
    rw [hcursor] at hfree
    have htaken : ¬mid.ringBuffer.flags (mid.ringBuffer.calSlotIndex p.ringBuffer.cursor) =
        CAN_TAKE_FLAG := by
      rw [hfree]
      decide
    obtain ⟨rfl, rfl⟩ := Prod.mk.inj ((finish_refused htaken).symm.trans hfinish)
    exact ⟨⟨_, rfl⟩, uids', hserved⟩

/-- A take that returns leaves the reserve, and the whole of it after a pass. -/
structure LeavesReserve (bufferSize paddingThreshold : ℤ) (p p' : PaddedRing) : Prop where
  threshold_le : paddingThreshold ≤ p'.ringBuffer.tail - p'.ringBuffer.cursor
  le_size : p'.ringBuffer.tail - p'.ringBuffer.cursor ≤ bufferSize - 1
  padded : p.ringBuffer.tail - (p.ringBuffer.cursor + 1) < paddingThreshold →
    p'.ringBuffer.tail - p'.ringBuffer.cursor = bufferSize - 1

theorem Reserved.keeps (h : Reserved bufferSize paddingThreshold uids taken p)
    (hbound : taken + bufferSize ≤ 2 ^ 63) :
    p.ringBuffer.cursor + p.ringBuffer.bufferSize < 2 ^ 63 ∧ ¬Loses p := by
  have hpos := p.ringBuffer.bufferSize_pos
  have hcursor := h.serves.cursor
  rw [h.size] at hpos ⊢
  refine ⟨by omega, ?_⟩
  rintro ⟨-, hmax | ⟨-, hshut, -⟩⟩
  · omega
  · rw [h.live] at hshut
    cases hshut

theorem Reserved.take (h : Reserved bufferSize paddingThreshold uids taken p) (hcb : Reliable cb)
    (hbound : taken + bufferSize ≤ 2 ^ 63) (hthreshold : paddingThreshold ≤ bufferSize - 1)
    (hne : p.ringBuffer.cursor ≠ p.ringBuffer.tail) {outcome : Except Throwable ℤ}
    (htake : p.take cb fuel = some (outcome, p')) :
    ∃ uid uids', outcome = .ok uid ∧ uids[taken]? = some uid ∧
      Reserved bufferSize paddingThreshold uids' (taken + 1) p' ∧
      LeavesReserve bufferSize paddingThreshold p p' := by
  obtain ⟨hnowrap, hkeeps⟩ := h.keeps hbound
  obtain ⟨uid, uidList, mid, htakes⟩ := h.serves.take hne hnowrap hkeeps htake
  have hfills := htakes.padded.fills
  have hcursor : mid.ringBuffer.cursor = p.ringBuffer.cursor + 1 := hfills.cursor
  have hlo : (-1 : ℤ) ≤ p.ringBuffer.cursor := h.serves.admits.start_le
  have hsize : mid.ringBuffer.bufferSize = bufferSize := hfills.shape.1.trans h.size
  have hahead := hfills.admits.ahead (by omega)
  rw [hcursor, hsize] at hahead
  have htail := hfills.tail
  rw [moveCursor_tail] at htail
  have hexecutor := congrArg (·.executor) htakes.rest
  have hattached := congrArg (·.attached) htakes.rest
  simp only at hexecutor hattached
  -- the flag is down again, and a pass has filled the ring
  have hpass : mid.executor.running = false ∧
      (p.ringBuffer.tail - (p.ringBuffer.cursor + 1) < paddingThreshold → mid.ringBuffer.room = 0) := by
    rcases triggerPadding_cases htakes.padding with ⟨hquiet, -, rfl⟩ | ⟨-, -, herr, -⟩ |
      ⟨-, -, -, out, hpad⟩
    · refine ⟨h.idle, fun hbelow => ?_⟩
      rw [← h.threshold] at hbelow
      exact absurd ⟨hbelow, h.attached⟩ hquiet
    · cases herr
    · obtain ⟨-, hmoved⟩ := h.serves.admits.claim hne
      rw [insert_empty_eq] at hmoved
      obtain ⟨hidle, hfull⟩ := paddingBuffer_full hcb
        (p := moveCursor p (p.ringBuffer.cursor + 1)) hmoved (by simp [moveCursor])
        (by simp only [moveCursor]; omega) h.idle hpad
      exact ⟨hidle, fun _ => hfull⟩
  refine ⟨uid, _, htakes.returned, htakes.stored, ⟨htakes.serves, htakes.shape.1.trans h.size,
    htakes.shape.2.trans h.threshold, by rw [hexecutor, hpass.1],
    by rw [hexecutor, htakes.padded.shutdown]; exact h.live,
    by rw [hattached, htakes.padded.attached]; exact h.attached, ?_⟩, ?_, ?_, ?_⟩
  · have hstarted := h.started
    rw [htakes.tail]
    omega
  · rw [htakes.tail, htakes.cursor]
    by_cases hbelow : p.ringBuffer.tail - (p.ringBuffer.cursor + 1) < paddingThreshold
    · rw [hahead.2 (hpass.2 hbelow)]
      exact hthreshold
    · omega
  · rw [htakes.tail, htakes.cursor]
    exact hahead.1
  · intro hbelow
    rw [htakes.tail, htakes.cursor]
    exact hahead.2 (hpass.2 hbelow)

def PaddedEvent.IsTakeOrPass : PaddedEvent → Prop
  | take _ => True
  | paddingBuffer _ => True
  | _ => False

theorem reserved_first {paddingFactor : ℚ} {executor : BufferPaddingExecutor} (hcb : Reliable cb)
    (hnew : RingBuffer.new bufferSize paddingFactor = .ok r) (hidle : executor.running = false)
    (hlive : executor.bufferPadExecutorsShutdown = false) {out : Except Throwable Unit}
    (hpad : PaddedRing.paddingBuffer cb fuel ⟨r, executor, true⟩ = some (out, p)) :
    ∃ uids, Reserved bufferSize r.paddingThreshold uids 0 p := by
  obtain ⟨hadmits, hsize, htail, hcursor⟩ := admits_new hnew
  have hlt := r.bufferSize_lt
  have hpos := r.bufferSize_pos
  have hbound : r.cursor + r.bufferSize ≤ 2 ^ 63 := by omega
  obtain ⟨uidList, hpadded⟩ :=
    paddingBuffer_padded (p := ⟨r, executor, true⟩) hadmits (by simp) hbound hpad
  obtain ⟨hidle', hfull⟩ :=
    paddingBuffer_full (p := ⟨r, executor, true⟩) hcb hadmits (by simp) hbound hidle hpad
  have hfills : Fills r ∅ uidList p.ringBuffer := hpadded.fills
  have hroom := hfills.admits.room_eq
  rw [hfull, hfills.cursor, hcursor, hfills.shape.1] at hroom
  exact ⟨_, (serves_new hnew).fills hfills, hfills.shape.1.trans hsize, hfills.shape.2, hidle',
    hpadded.shutdown.trans hlive, hpadded.attached, by push_cast at hroom; omega⟩

theorem Reserved.step (h : Reserved bufferSize paddingThreshold uids taken p) (hcb : Reliable cb)
    (hthreshold : paddingThreshold ≤ bufferSize - 1) {e : PaddedEvent} (he : e.IsTakeOrPass)
    (hstep : PaddedStep cb p e p') (hbound : taken + bufferSize ≤ 2 ^ 63) :
    ∃ uids', Reserved bufferSize paddingThreshold uids' (taken + e.uid.toList.length) p' := by
  have hcursor := h.serves.cursor
  cases hstep with
  | put _ => cases he
  | asyncPadding _ => cases he
  | start _ => cases he
  | shutdown => cases he
  | fire _ _ _ => cases he
  | paddingBuffer hpad => exact h.padding hcb (by omega) hpad
  | take htake =>
    by_cases hempty : p.ringBuffer.cursor = p.ringBuffer.tail
    · obtain ⟨⟨e, rfl⟩, hnext⟩ := h.take_of_empty hcb (by omega) hempty htake
      exact hnext
    · obtain ⟨uid, uids', rfl, -, hnext, -⟩ := h.take hcb hbound hthreshold hempty htake
      exact ⟨uids', hnext⟩

/-- The threshold of an integer factor. -/
theorem threshold_of_integer {factor : ℤ} (hnew : RingBuffer.new bufferSize factor = .ok r) :
    r.paddingThreshold = bufferSize * factor / 100 ∧ r.paddingThreshold ≤ bufferSize - 1 := by
  obtain ⟨-, hsize, -, hfactor, hthreshold, -, -⟩ := represents_new hnew
  have hlt : factor < 100 := by exact_mod_cast hfactor
  have hpos := r.bufferSize_pos
  have heq : r.paddingThreshold = bufferSize * factor / 100 := by
    rw [hthreshold, ← Int.cast_mul]
    exact_mod_cast Rat.floor_intCast_div_natCast (bufferSize * factor) 100
  refine ⟨heq, ?_⟩
  rw [heq]
  exact Int.le_sub_one_of_lt (Int.ediv_lt_of_lt_mul (by norm_num) (by nlinarith))

end UID
