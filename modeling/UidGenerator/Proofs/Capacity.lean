import UidGenerator.Proofs.FailedTakes
import UidGenerator.Proofs.Interleaving

/-! How many UIDs a ring admits. As long as no sequence has wrapped, a put is rejected
exactly when the tail is `bufferSize - 1` ahead of the cursor: otherwise the slot after
the tail is free, whatever takes on an empty ring have done to the flags. -/

namespace UID

open RingQueue Transition RingBuffer

variable {r r' : RingBuffer} {held : Set ℤ} {uid : ℤ}

namespace RingBuffer

/-- The cursors whose slots may hold a UID: those of the unread ones, and of the takes
that have not finished. -/
def Occupied (r : RingBuffer) (held : Set ℤ) (c : ℤ) : Prop :=
  c ∈ held ∨ r.cursor < c ∧ c ≤ r.tail

/-- No sequence has wrapped, the puts have not passed the cursor, and the slots that are
not occupied can be put to. -/
structure Admits (r : RingBuffer) (held : Set ℤ) : Prop where
  start_le : START_POINT ≤ r.cursor
  cursor_le : r.cursor ≤ r.tail
  tail_lt : r.tail < 2 ^ 63
  distance_le : r.distance ≤ r.bufferSize - 1
  held_range : ∀ c ∈ held, 0 ≤ c ∧ c ≤ r.cursor
  flags : ∀ i, r.flags i = CAN_PUT_FLAG ∨ r.flags i = CAN_TAKE_FLAG
  free : ∀ i, (∀ c, r.Occupied held c → r.calSlotIndex c ≠ i) → r.flags i = CAN_PUT_FLAG

def room (r : RingBuffer) : ℕ := (r.bufferSize - 1 - r.distance).toNat

theorem Admits.distance_eq (h : Admits r held) : r.distance = r.tail - max r.cursor 0 := by
  have hstart := h.start_le
  unfold distance START_POINT at *
  split_ifs <;> omega

theorem Admits.room_eq (h : Admits r held) :
    (r.room : ℤ) = r.bufferSize - 1 - (r.tail - max r.cursor 0) := by
  have hle := h.distance_le
  rw [← h.distance_eq, room]
  omega

theorem Admits.room_pos_iff (h : Admits r held) : 0 < r.room ↔ r.distance ≠ r.bufferSize - 1 := by
  have hle := h.distance_le
  rw [room]
  omega

theorem Admits.isLong (h : Admits r held) {c : ℤ} (hlo : START_POINT ≤ c) (hhi : c ≤ r.tail) :
    toLong c = c := by
  have := h.tail_lt
  rw [show START_POINT = -1 from rfl] at hlo
  exact toLong_eq_self ⟨by omega, by omega⟩

/-- Sequences less than a round apart have different slots. -/
theorem calSlotIndex_ne {c d : ℤ} (hlt : c < d) (h : d - c < r.bufferSize) :
    r.calSlotIndex c ≠ r.calSlotIndex d := by
  rw [calSlotIndex_eq, calSlotIndex_eq]
  intro heq
  have hdvd : r.bufferSize ∣ d - c := Int.dvd_of_emod_eq_zero (Int.emod_eq_emod_iff_emod_sub_eq_zero.1
    heq.symm)
  exact absurd (Int.le_of_dvd (by omega) hdvd) (by omega)

/-- With at most the last claim unfinished, the slot after the tail is not occupied. -/
theorem Admits.next_ne (h : Admits r held) (hheld : ∀ c ∈ held, c = r.cursor) (hroom : 0 < r.room)
    {c : ℤ} (hc : r.Occupied held c) : r.calSlotIndex c ≠ r.calSlotIndex (r.tail + 1) := by
  have hstart : (-1 : ℤ) ≤ r.cursor := h.start_le
  have hle := h.cursor_le
  have heq := h.room_eq
  rcases hc with hc | ⟨hlo, hhi⟩
  · obtain ⟨h0, -⟩ := h.held_range c hc
    have := hheld c hc
    exact calSlotIndex_ne (by omega) (by omega)
  · exact calSlotIndex_ne (by omega) (by omega)

theorem Admits.tryPut_eq_none_iff (h : Admits r held) (hheld : ∀ c ∈ held, c = r.cursor) (uid : ℤ) :
    r.tryPut uid = none ↔ r.room = 0 := by
  by_cases hroom : 0 < r.room
  · have hfree := h.free _ fun c => h.next_ne hheld hroom
    simp [tryPut, h.room_pos_iff.1 hroom, hfree, hroom.ne']
  · have hfull : r.distance = r.bufferSize - 1 := by
      by_contra hne
      exact hroom (h.room_pos_iff.2 hne)
    simp [tryPut, hfull]
    omega

/-- What an accepted put changes. -/
theorem tryPut_some (hput : r.tryPut uid = some r') :
    r.distance ≠ r.bufferSize - 1 ∧ r.flags (r.calSlotIndex (r.tail + 1)) = CAN_PUT_FLAG ∧
      r' = { r with
        slots := Function.update r.slots (r.calSlotIndex (r.tail + 1)) (toLong uid)
        flags := Function.update r.flags (r.calSlotIndex (r.tail + 1)) CAN_TAKE_FLAG
        tail := toLong (r.tail + 1) } := by
  simp only [tryPut] at hput
  split_ifs at hput with hdistance hflag
  exact ⟨hdistance, not_not.1 hflag, (Option.some.inj hput).symm⟩

theorem Admits.put (h : Admits r held) (htail : r.tail + 1 < 2 ^ 63)
    (hput : r.tryPut uid = some r') :
    Admits r' held ∧ SameShape r r' ∧ r'.cursor = r.cursor ∧ r'.tail = r.tail + 1 ∧
      r'.room + 1 = r.room := by
  obtain ⟨hdistance, -, rfl⟩ := tryPut_some hput
  have hstart : (-1 : ℤ) ≤ r.cursor := h.start_le
  have hle := h.cursor_le
  have hnext : toLong (r.tail + 1) = r.tail + 1 := toLong_eq_self ⟨by omega, htail⟩
  have hdist := h.distance_le
  rw [hnext]
  refine ⟨⟨h.start_le, by simp only; omega, htail, ?_, h.held_range,
    flags_update (Or.inr rfl) h.flags, ?_⟩, ⟨rfl, rfl⟩, rfl, rfl, ?_⟩
  · simp only [distance] at hdist hdistance ⊢
    omega
  · intro i hi
    have hne : i ≠ r.calSlotIndex (r.tail + 1) := by
      rintro rfl
      exact hi (r.tail + 1) (Or.inr ⟨by simp only; omega, le_rfl⟩) rfl
    simp only [Function.update_of_ne hne]
    refine h.free i fun c hc => hi c ?_
    rcases hc with hc | ⟨hlo, hhi⟩
    · exact Or.inl hc
    · exact Or.inr ⟨hlo, by simp only; omega⟩
  · simp only [room, distance] at hdist hdistance ⊢
    omega

theorem Admits.claim (h : Admits r held) (hne : r.cursor ≠ r.tail) :
    r.claim = (r.cursor + 1, { r with cursor := r.cursor + 1 }) ∧
      Admits { r with cursor := r.cursor + 1 } (insert (r.cursor + 1) held) := by
  have hstart : (-1 : ℤ) ≤ r.cursor := h.start_le
  have hle := h.cursor_le
  have hlt : r.cursor + 1 ≤ r.tail := by omega
  refine ⟨?_, ?_, hlt, h.tail_lt, ?_, ?_, h.flags, ?_⟩
  · rw [RingBuffer.claim, if_neg hne, h.isLong (by rw [START_POINT]; omega) hlt]
  · rw [START_POINT]
    simp only
    omega
  · have hdist := h.distance_le
    simp only [distance, START_POINT] at hdist ⊢
    split_ifs at hdist ⊢ <;> omega
  · rintro c (rfl | hc)
    · exact ⟨by omega, le_rfl⟩
    · obtain ⟨h0, hc⟩ := h.held_range c hc
      exact ⟨h0, by simp only; omega⟩
  · intro i hi
    refine h.free i fun c hc => hi c ?_
    rcases hc with hc | ⟨hlo, hhi⟩
    · exact Or.inl (Or.inr hc)
    · rcases eq_or_lt_of_le (show r.cursor + 1 ≤ c by omega) with rfl | hlt
      · exact Or.inl (Or.inl rfl)
      · exact Or.inr ⟨hlt, hhi⟩

theorem Admits.claim_of_eq (h : Admits r held) (heq : r.cursor = r.tail) :
    r.claim = (r.cursor, r) := by
  rw [RingBuffer.claim, if_pos heq, h.isLong h.start_le h.cursor_le]

/-- Reading a slot can only free it, and the slot it reads is free afterwards. -/
theorem finish_flags (hflags : ∀ i, r.flags i = CAN_PUT_FLAG ∨ r.flags i = CAN_TAKE_FLAG) {c : ℤ}
    {outcome : Except Throwable ℤ} (hfinish : r.finish c = (outcome, r')) :
    (∀ i, r'.flags i = CAN_PUT_FLAG ∨ r'.flags i = CAN_TAKE_FLAG) ∧
      (∀ i, r.flags i = CAN_PUT_FLAG → r'.flags i = CAN_PUT_FLAG) ∧
      r'.flags (r.calSlotIndex c) = CAN_PUT_FLAG := by
  by_cases hflag : r.flags (r.calSlotIndex c) = CAN_TAKE_FLAG
  · obtain ⟨-, rfl⟩ := Prod.mk.inj ((finish_taken hflag).symm.trans hfinish)
    refine ⟨flags_update (Or.inl rfl) hflags, fun i hi => ?_, by simp⟩
    by_cases hic : i = r.calSlotIndex c
    · rw [hic]
      simp
    · simpa only [Function.update_of_ne hic] using hi
  · obtain ⟨-, rfl⟩ := Prod.mk.inj ((finish_refused hflag).symm.trans hfinish)
    exact ⟨hflags, fun _ hi => hi, (hflags _).resolve_right hflag⟩

theorem Admits.finish (h : Admits r held) {c : ℤ} {outcome : Except Throwable ℤ}
    (hfinish : r.finish c = (outcome, r')) : Admits r' (held \ {c}) := by
  obtain ⟨hflags, hmono, hfreed⟩ := finish_flags h.flags hfinish
  have hframe := finish_frame hfinish
  generalize r'.flags = flags at hflags hmono hfreed hframe
  subst hframe
  refine ⟨h.start_le, h.cursor_le, h.tail_lt, h.distance_le, fun d hd => h.held_range d hd.1, hflags,
    fun i hi => ?_⟩
  by_cases hic : i = r.calSlotIndex c
  · exact hic ▸ hfreed
  · refine hmono i (h.free i fun d hd => ?_)
    rcases hd with hd | hd
    · by_cases hdc : d = c
      · exact hdc ▸ Ne.symm hic
      · exact hi d (Or.inl ⟨hd, hdc⟩)
    · exact hi d (Or.inr hd)

theorem Admits.mono {held' : Set ℤ} (h : Admits r held) (hsub : held ⊆ held')
    (hrange : ∀ c ∈ held', 0 ≤ c ∧ c ≤ r.cursor) : Admits r held' :=
  ⟨h.start_le, h.cursor_le, h.tail_lt, h.distance_le, hrange, h.flags, fun i hi =>
    h.free i fun c hc => hi c (hc.imp_left fun hc => hsub hc)⟩

theorem admits_new {bufferSize : ℤ} {paddingFactor : ℚ}
    (h : RingBuffer.new bufferSize paddingFactor = .ok r) :
    Admits r ∅ ∧ r.bufferSize = bufferSize ∧ r.tail = -1 ∧ r.cursor = -1 := by
  unfold RingBuffer.new at h
  split_ifs at h with hpos hbits hfactor hlen
  obtain rfl := Except.ok.inj h
  refine ⟨⟨le_rfl, le_rfl, show (-1 : ℤ) < 2 ^ 63 by norm_num, ?_, by simp, fun _ => Or.inl rfl,
    fun _ _ => rfl⟩, rfl, rfl, rfl⟩
  simp only [distance, if_true, START_POINT]
  omega

end RingBuffer

variable {events : List RingEvent} {s s' : RingTakes} {bufferSize : ℤ} {paddingFactor : ℚ}
  {e : RingEvent}

def RingTakes.holding (s : RingTakes) : Set ℤ := {c | c ∈ s.claimed ∧ 0 ≤ c}

def KeepsLong (r r' : RingBuffer) : Prop :=
  r'.bufferSize = r.bufferSize ∧ (IsLong r.tail → IsLong r.cursor → IsLong r'.tail ∧ IsLong r'.cursor)

theorem HandledStep.keepsLong (hstep : HandledStep s e s') : KeepsLong s.ring s'.ring := by
  have hclaim {r r' : RingBuffer} {c : ℤ} (h : r.claim = (c, r')) : KeepsLong r r' := by
    rw [← (Prod.mk.inj h).2]
    exact ⟨rfl, fun ht _ => ⟨ht, isLong_toLong _⟩⟩
  cases hstep with
  | step h =>
    cases h with
    | accepted h =>
      rw [(tryPut_some h).2.2]
      exact ⟨rfl, fun _ hc => ⟨isLong_toLong _, hc⟩⟩
    | rejected h => exact ⟨rfl, fun ht hc => ⟨ht, hc⟩⟩
    | claim h _ => exact hclaim h
    | stuck h _ => exact hclaim h
    | finish _ h =>
      rw [finish_frame h]
      exact ⟨rfl, fun ht hc => ⟨ht, hc⟩⟩
  | handled h _ => exact hclaim h

theorem isLong_run (hnew : RingBuffer.new bufferSize paddingFactor = .ok r)
    (hrun : Run HandledStep ⟨r, []⟩ events s) :
    s.ring.bufferSize = bufferSize ∧ IsLong s.ring.tail ∧ IsLong s.ring.cursor := by
  refine hrun.invariant
    (fun _ s => s.ring.bufferSize = bufferSize ∧ IsLong s.ring.tail ∧ IsLong s.ring.cursor) ?_ ?_
  · obtain ⟨-, hsize, htail, hcursor⟩ := admits_new hnew
    simp only [htail, hcursor]
    exact ⟨hsize, ⟨by norm_num, by norm_num⟩, by norm_num, by norm_num⟩
  · rintro _ s e s' - ⟨hsize, ht, hc⟩ hstep
    obtain ⟨hsize', hlong⟩ := hstep.keepsLong
    exact ⟨hsize'.trans hsize, hlong ht hc⟩

/-- A take whose cursor stays where it was has found the ring empty. -/
theorem RingBuffer.Admits.stuck {held : Set ℤ} (h : Admits r held) {c : ℤ}
    (hclaim : r.claim = (c, r')) (hback : c ≤ r.cursor) : c = r.cursor ∧ r' = r := by
  by_cases heq : r.cursor = r.tail
  · rw [h.claim_of_eq heq] at hclaim
    exact ⟨(Prod.mk.inj hclaim).1.symm, (Prod.mk.inj hclaim).2.symm⟩
  · rw [(h.claim heq).1] at hclaim
    have := (Prod.mk.inj hclaim).1
    omega

theorem RingBuffer.Admits.step (h : Admits s.ring s.holding) (hstep : HandledStep s e s')
    (htail : s.ring.tail + e.acceptedUid.toList.length < 2 ^ 63) :
    Admits s'.ring s'.holding ∧ s'.ring.bufferSize = s.ring.bufferSize ∧
      s'.ring.tail = s.ring.tail + e.acceptedUid.toList.length := by
  cases hstep with
  | step hstep =>
    cases hstep with
    | accepted hput =>
      obtain ⟨hadmits, hshape, -, hnext, -⟩ := h.put (by simpa [RingEvent.acceptedUid] using htail) hput
      exact ⟨hadmits, hshape.1, by simpa [RingEvent.acceptedUid] using hnext⟩
    | rejected _ => exact ⟨h, rfl, by simp [RingEvent.acceptedUid]⟩
    | @claim r r' claimed c hclaim hforward =>
      have hne : r.cursor ≠ r.tail := by
        intro heq
        rw [h.claim_of_eq heq] at hclaim
        exact hforward.ne (Prod.mk.inj hclaim).1
      obtain ⟨hnext, hadmits⟩ := h.claim hne
      rw [hnext] at hclaim
      obtain ⟨rfl, rfl⟩ := Prod.mk.inj hclaim
      refine ⟨hadmits.mono ?_ ?_, rfl, by simp [RingEvent.acceptedUid]⟩
      · rintro c (rfl | ⟨hc, h0⟩)
        · exact ⟨List.mem_cons_self, (hadmits.held_range _ (Or.inl rfl)).1⟩
        · exact ⟨List.mem_cons_of_mem _ hc, h0⟩
      · rintro c ⟨hc, h0⟩
        rcases List.mem_cons.1 hc with rfl | hc
        · exact hadmits.held_range _ (Or.inl rfl)
        · exact hadmits.held_range _ (Or.inr ⟨hc, h0⟩)
    | stuck hclaim hback =>
      obtain ⟨-, rfl⟩ := h.stuck hclaim hback
      exact ⟨h, rfl, by simp [RingEvent.acceptedUid]⟩
    | @finish r r' claimed c _ hown hfinish =>
      have hframe := finish_frame hfinish
      refine ⟨(h.finish hfinish).mono ?_ ?_, by rw [hframe],
        by rw [hframe]; simp [RingEvent.acceptedUid]⟩
      · rintro d ⟨⟨hd, h0⟩, hne⟩
        exact ⟨(List.mem_erase_of_ne hne).2 hd, h0⟩
      · rintro d ⟨hd, h0⟩
        rw [hframe]
        exact h.held_range d ⟨List.mem_of_mem_erase hd, h0⟩
  | handled hclaim hsame =>
    obtain ⟨rfl, rfl⟩ := h.stuck hclaim hsame.le
    refine ⟨h.mono ?_ ?_, rfl, by simp [RingEvent.acceptedUid]⟩
    · rintro d ⟨hd, h0⟩
      exact ⟨List.mem_cons_of_mem _ hd, h0⟩
    · rintro d ⟨hd, h0⟩
      rcases List.mem_cons.1 hd with rfl | hd
      · exact ⟨h0, le_rfl⟩
      · exact h.held_range d ⟨hd, h0⟩

theorem admits_run (hnew : RingBuffer.new bufferSize paddingFactor = .ok r)
    (hrun : Run HandledStep ⟨r, []⟩ events s) (hlen : (acceptedUids events).length ≤ 2 ^ 63) :
    Admits s.ring s.holding ∧ s.ring.bufferSize = bufferSize ∧
      s.ring.tail = (acceptedUids events).length - 1 := by
  induction hrun with
  | nil =>
    obtain ⟨hadmits, hsize, htail, -⟩ := admits_new hnew
    have hheld : RingTakes.holding ⟨r, []⟩ = ∅ := by simp [RingTakes.holding]
    exact ⟨hheld ▸ hadmits, hsize, by simpa [acceptedUids] using htail⟩
  | snoc hpre hstep ih =>
    rw [acceptedUids_snoc, List.length_append] at hlen ⊢
    obtain ⟨hadmits, hsize, htail⟩ := ih (by omega)
    obtain ⟨hadmits', hsize', htail'⟩ := hadmits.step hstep (by omega)
    exact ⟨hadmits', hsize'.trans hsize, by rw [htail', htail]; push_cast; ring⟩

/-- On a ring without an executor, `put` accepts the UID and the take that follows returns it. -/
def PutThenTaken (r : RingBuffer) (uid : ℤ) : Prop :=
  ∀ (rejectedPutHandler : RingBuffer → ℤ → Except Throwable Unit)
    (rejectedTakeHandler : RingBuffer → Except Throwable Unit), ∃ r',
    r.put rejectedPutHandler uid = (.ok true, r') ∧
      (r'.take rejectedTakeHandler).1 = .ok (toLong uid)

theorem distance_of_empty (hempty : r.cursor = r.tail) :
    r.distance = r.bufferSize - 1 ↔ r.bufferSize = 1 ∧ r.cursor ≠ START_POINT := by
  have hpos := r.bufferSize_pos
  unfold distance START_POINT
  by_cases h : r.cursor = -1
  · rw [if_pos h]
    omega
  · rw [if_neg h]
    omega

/-- An empty ring takes a put and gives it back unless it also counts as full. -/
theorem putThenTaken_iff (htail : IsLong r.tail) (hempty : r.cursor = r.tail) (uid : ℤ) :
    PutThenTaken r uid ↔ (r.bufferSize ≠ 1 ∨ r.cursor = START_POINT) ∧ r.cursor ≠ 2 ^ 63 - 1 ∧
      r.flags (r.calSlotIndex (r.tail + 1)) = CAN_PUT_FLAG := by
  have hdistance := distance_of_empty hempty
  constructor
  · intro h
    obtain ⟨r', hput, htake⟩ := h discardPutBuffer exceptionRejectedTakeBuffer
    cases htry : r.tryPut uid with
    | none => simp [RingBuffer.put, htry, discardPutBuffer] at hput
    | some r₁ =>
      simp only [RingBuffer.put, htry, Prod.mk.injEq, true_and] at hput
      subst hput
      obtain ⟨hroom, hflag, rfl⟩ := tryPut_some htry
      refine ⟨by tauto, fun hmax => ?_, hflag⟩
      -- the tail wraps, and the take finds its cursor behind the one it had
      have hback : toLong (r.cursor + 1) = -2 ^ 63 := by
        rw [hmax]
        decide
      have hne : ¬r.cursor = toLong (r.tail + 1) := by
        rw [← hempty, hback, hmax]
        norm_num
      have hnot : ¬(-2 ^ 63 : ℤ) ≥ r.cursor := by
        rw [hmax]
        norm_num
      simp only [RingBuffer.take, RingBuffer.claim, if_neg hne, hback, isTrue, if_neg hnot] at htake
      cases htake
  · rintro ⟨hsize, hmax, hflag⟩ rejectedPutHandler rejectedTakeHandler
    have hroom : r.distance ≠ r.bufferSize - 1 := by tauto
    obtain ⟨hlo, hhi⟩ := htail
    have hnext : toLong (r.tail + 1) = r.tail + 1 := toLong_eq_self ⟨by omega, by omega⟩
    obtain ⟨r', htry⟩ : ∃ r', r.tryPut uid = some r' := by simp [tryPut, hroom, hflag]
    refine ⟨r', by rw [RingBuffer.put, htry], ?_⟩
    obtain ⟨-, -, rfl⟩ := tryPut_some htry
    simp [RingBuffer.take, RingBuffer.claim, isTrue, hempty, hnext, RingBuffer.finish, calSlotIndex,
      indexMask]

/-- An empty ring takes the next UID and gives it back exactly when it has more than one
slot or was never taken from, and the sequences do not wrap there. -/
theorem put_take_of_empty_iff (hnew : RingBuffer.new bufferSize paddingFactor = .ok r)
    (hrun : Run HandledStep ⟨r, []⟩ events s) (hempty : s.ring.cursor = s.ring.tail) (uid : ℤ) :
    (PutThenTaken s.ring uid ↔ (bufferSize ≠ 1 ∨ s.ring.cursor = START_POINT) ∧
        s.ring.cursor ≠ 2 ^ 63 - 1 ∧
        s.ring.flags (s.ring.calSlotIndex (s.ring.tail + 1)) = CAN_PUT_FLAG) ∧
      (s.claimed = [] → (acceptedUids events).length < 2 ^ 63 → s.ring.cursor ≠ 2 ^ 63 - 1 ∧
        s.ring.flags (s.ring.calSlotIndex (s.ring.tail + 1)) = CAN_PUT_FLAG) ∧
      (IsLong uid → toLong uid = uid) := by
  obtain ⟨hsize, htail, -⟩ := isLong_run hnew hrun
  refine ⟨hsize ▸ putThenTaken_iff htail hempty uid, fun hidle hlen => ?_, toLong_eq_self⟩
  obtain ⟨hadmits, -, htail⟩ := admits_run hnew hrun hlen.le
  refine ⟨by omega, hadmits.free _ ?_⟩
  rintro c (⟨hc, -⟩ | ⟨hlo, hhi⟩)
  · simp [hidle] at hc
  · omega

def oneSlot : RingBuffer where
  bufferSize := 1
  paddingThreshold := 0
  bufferSize_pos := Int.one_pos
  bufferSize_oneBit := by decide
  bufferSize_le := by decide

theorem new_one_fifty : RingBuffer.new 1 50 = .ok oneSlot := by
  have hthreshold : ⌊((1 : ℤ) : ℚ) * 50 / 100⌋ = 0 := by norm_num
  rw [RingBuffer.new, dif_pos (by decide), dif_pos (by decide), if_pos (by norm_num),
    dif_pos (by decide)]
  simp only [hthreshold]
  rfl

/-- The constructor makes a ring of one slot, which is empty after its first take and rejects
every put as full. -/
theorem one_slot_full_and_empty : RingBuffer.new 1 50 = .ok oneSlot ∧
    ∃ (events : List RingEvent) (s : RingTakes), Run HandledStep ⟨oneSlot, []⟩ events s ∧
      s.claimed = [] ∧ acceptedUids events = [7] ∧ s.ring.cursor = s.ring.tail ∧
      s.ring.tryPut 8 = none ∧ ¬PutThenTaken s.ring 8 := by
  have hrun : Run HandledStep ⟨oneSlot, []⟩ [.put 7 true, .claim (some 0), .finish 0 (.ok 7)] _ :=
    .cons (.step (.accepted rfl)) (.cons (.step (.claim rfl (by decide))) (.cons
      (.step (.finish (by decide) rfl)) .nil))
  refine ⟨new_one_fifty, _, _, hrun, rfl, rfl, rfl, rfl, fun h => ?_⟩
  obtain ⟨r', hput, -⟩ := h discardPutBuffer exceptionRejectedTakeBuffer
  cases hput

/-- Two slots, after two puts and two takes. -/
theorem put_take_of_empty_two_slots : ∃ (events : List RingEvent) (s : RingTakes),
    Run HandledStep ⟨twoSlots, []⟩ events s ∧ acceptedUids events = [5, 6] ∧
      PutThenTaken s.ring 7 := by
  have hrun : Run HandledStep ⟨twoSlots, []⟩ [.put 5 true, .claim (some 0), .put 6 true,
      .claim (some 1), .finish 0 (.ok 5), .finish 1 (.ok 6)] _ :=
    .cons (.step (.accepted rfl)) (.cons (.step (.claim rfl (by decide))) (.cons
      (.step (.accepted rfl)) (.cons (.step (.claim rfl (by decide))) (.cons
      (.step (.finish (by decide) rfl)) (.cons (.step (.finish (by decide) rfl)) .nil)))))
  exact ⟨_, _, hrun, rfl, (put_take_of_empty_iff new_two_fifty hrun rfl 7).1.2
    ⟨by decide, by decide, rfl⟩⟩

end UID
