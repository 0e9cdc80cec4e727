import UidGenerator.Proofs.ExactPass

/-! Takes on an empty ring whose reject handler returns. The take goes on to the slot at
its cursor, which is free unless the cursor is still at its start and the pass of this
very take has filled the last slot. -/

namespace UID

open RingQueue Transition RingBuffer

variable {cb : Callbacks} {r r' : RingBuffer} {p p' : PaddedRing} {held : Set ℤ}
  {uids uidList : List ℤ} {claimed taken fuel : ℕ} {pending : Finset ℕ}

theorem RingBuffer.Represents.putAll (h : Represents r uids claimed pending)
    (hputs : r.tryPutAll uidList = some r') :
    Represents r' (uids ++ uidList.map toLong) claimed pending := by
  induction uidList generalizing r uids with
  | nil =>
    obtain rfl := Option.some.inj hputs
    simpa using h
  | cons uid uidList ih =>
    rw [tryPutAll, List.foldlM_cons] at hputs
    obtain ⟨r₁, htry, hrest⟩ := Option.bind_eq_some_iff.1 hputs
    simpa using ih (h.put htry).1 hrest

/-- The sequences of the next puts do not wrap. -/
theorem RingBuffer.Admits.tail_add_room (h : Admits r held)
    (hbound : r.cursor + r.bufferSize ≤ 2 ^ 63) : r.tail + r.room < 2 ^ 63 := by
  have heq := h.room_eq
  have hlt := r.bufferSize_lt
  omega

structure Padded (p : PaddedRing) (held : Set ℤ) (uidList : List ℤ) (p' : PaddedRing) : Prop where
  fills : Fills p.ringBuffer held uidList p'.ringBuffer
  attached : p'.attached = p.attached
  shutdown : p'.executor.bufferPadExecutorsShutdown = p.executor.bufferPadExecutorsShutdown

theorem padded_refl (h : Admits p.ringBuffer held) : Padded p held [] p := ⟨fills_nil h, rfl, rfl⟩

theorem paddingBuffer_padded (h : Admits p.ringBuffer held)
    (hheld : ∀ c ∈ held, c = p.ringBuffer.cursor)
    (hbound : p.ringBuffer.cursor + p.ringBuffer.bufferSize ≤ 2 ^ 63) {out : Except Throwable Unit}
    (hpad : p.paddingBuffer cb fuel = some (out, p')) : ∃ uidList, Padded p held uidList p' := by
  rcases paddingBuffer_steps hpad with ⟨-, -, rfl⟩ | ⟨hidle, -⟩
  · exact ⟨[], padded_refl h⟩
  · obtain ⟨k, calls, mid, -, -, hpass, rfl⟩ :=
      paddingBuffer_passes h hheld (h.tail_add_room hbound) hidle hpad
    have hattached := congrArg (·.attached) hpass.state
    have hshutdown := congrArg (·.executor.bufferPadExecutorsShutdown) hpass.state
    have hfills : Fills p.ringBuffer held _ mid.ringBuffer := hpass.fills
    cases out <;> exact ⟨_, hfills, hattached, hshutdown⟩

theorem triggerPadding_padded (h : Admits p.ringBuffer held)
    (hheld : ∀ c ∈ held, c = p.ringBuffer.cursor)
    (hbound : p.ringBuffer.cursor + p.ringBuffer.bufferSize ≤ 2 ^ 63) {nextCursor : ℤ}
    {out : Except Throwable Unit} (htrigger : p.triggerPadding cb fuel nextCursor = some (out, p')) :
    ∃ uidList, Padded p held uidList p' := by
  rcases triggerPadding_cases htrigger with ⟨-, -, rfl⟩ | ⟨-, -, -, rfl⟩ | ⟨-, -, -, out', hpad⟩
  · exact ⟨[], padded_refl h⟩
  · exact ⟨[], padded_refl h⟩
  · exact paddingBuffer_padded h hheld hbound hpad

/-- A take whose cursor moves: it asks for a pass and then reads its slot. -/
theorem take_forward (h : Admits p.ringBuffer held) (hne : p.ringBuffer.cursor ≠ p.ringBuffer.tail)
    {outcome : Except Throwable ℤ} (htake : p.take cb fuel = some (outcome, p')) :
    ∃ out mid, (moveCursor p (p.ringBuffer.cursor + 1)).triggerPadding cb fuel
        (p.ringBuffer.cursor + 1) = some (out, mid) ∧
      ((∃ e, out = .error e ∧ outcome = .error e ∧ p' = mid) ∨
        out = .ok () ∧ ∃ r, mid.ringBuffer.finish (p.ringBuffer.cursor + 1) = (outcome, r) ∧
          p' = { mid with ringBuffer := r }) := by
  have hsteps := take_steps htake
  rw [(h.claim hne).1] at hsteps
  cases hsteps with
  | back hlt => omega
  | refused e _ hpadding hout => exact ⟨.error e, p', hpadding, Or.inl ⟨e, rfl, hout, rfl⟩⟩
  | read mid _ hpadding hread =>
    refine ⟨.ok (), mid, hpadding, Or.inr ⟨rfl, ?_⟩⟩
    rcases readSlot_steps hread with ⟨-, hsame, -⟩ | ⟨-, hslot⟩
    · omega
    · exact hslot

/-- A take that finds the ring empty: it asks for a pass, and goes on to the slot at its
cursor if neither the executor nor the reject handler throws. -/
theorem take_stuck (h : Admits p.ringBuffer held) (hempty : p.ringBuffer.cursor = p.ringBuffer.tail)
    {outcome : Except Throwable ℤ} (htake : p.take cb fuel = some (outcome, p')) :
    ∃ out mid, p.triggerPadding cb fuel p.ringBuffer.cursor = some (out, mid) ∧
      ((∃ e, (out = .error e ∨ cb.rejectedTakeHandler mid.ringBuffer = .error e) ∧
          outcome = .error e ∧ p' = mid) ∨
        out = .ok () ∧ ∃ r, mid.ringBuffer.finish p.ringBuffer.cursor = (outcome, r) ∧
          p' = { mid with ringBuffer := r }) := by
  have hsteps := take_steps htake
  rw [h.claim_of_eq hempty] at hsteps
  cases hsteps with
  | back hlt => exact absurd hlt (lt_irrefl _)
  | refused e _ hpadding hout => exact ⟨.error e, p', hpadding, Or.inl ⟨e, Or.inl rfl, hout, rfl⟩⟩
  | read mid _ hpadding hread =>
    refine ⟨.ok (), mid, hpadding, ?_⟩
    rcases readSlot_steps hread with ⟨e, -, hreject, hout, hrest⟩ | ⟨-, hslot⟩
    · exact Or.inl ⟨e, Or.inr hreject, hout, hrest⟩
    · exact Or.inr ⟨rfl, hslot⟩

/-- No take is between its steps: the ring holds the UIDs accepted and not taken. -/
structure Serves (r : RingBuffer) (uids : List ℤ) (taken : ℕ) : Prop where
  represents : Represents r uids taken ∅
  admits : Admits r ∅
  cursor : r.cursor = taken - 1

theorem Serves.fills (h : Serves r uids taken) (hfills : Fills r ∅ uidList r') :
    Serves r' (uids ++ uidList.map toLong) taken :=
  ⟨h.represents.putAll hfills.puts, hfills.admits, hfills.cursor.trans h.cursor⟩

/-- Once the cursor has left its start, its slot is free between takes. -/
theorem RingBuffer.Admits.cursor_free (h : Admits r ∅) (h0 : 0 ≤ r.cursor) :
    r.flags (r.calSlotIndex r.cursor) = CAN_PUT_FLAG := by
  have hdistance := h.distance_le
  rw [h.distance_eq, max_eq_left h0] at hdistance
  apply h.free
  intro c hc
  rcases hc with hc | ⟨hlo, hhi⟩
  · exact absurd hc (Set.notMem_empty c)
  · exact (calSlotIndex_ne hlo (by omega)).symm

/-- Before it has left its start, its slot is the last one. -/
theorem Serves.start_flag_iff (h : Serves r uids taken) (hstart : r.cursor = START_POINT) :
    r.flags (r.calSlotIndex r.cursor) = CAN_TAKE_FLAG ↔ r.room = 0 := by
  have hcursor : r.cursor = -1 := hstart
  have hpos := r.bufferSize_pos
  have hroom := h.admits.room_eq
  have hdistance := h.admits.distance_le
  have hcount := h.admits.unreadCount_eq
  rw [h.admits.distance_eq] at hdistance
  have hlast : r.calSlotIndex r.cursor = r.calSlotIndex (r.bufferSize - 1) := by
    rw [calSlotIndex_eq, calSlotIndex_eq, hcursor, sub_eq_neg_add, Int.add_emod_right]
  constructor
  · intro hflag
    by_contra hne
    have hfree : r.flags (r.calSlotIndex r.cursor) = CAN_PUT_FLAG := by
      apply h.admits.free
      intro c hc
      rcases hc with hc | ⟨hlo, hhi⟩
      · exact absurd hc (Set.notMem_empty c)
      · rw [hlast]
        exact calSlotIndex_ne (by omega) (by omega)
    rw [hfree] at hflag
    cases hflag
  · intro hzero
    have hread := h.represents.flagsConsistent (r.bufferSize - 1).toNat (by omega)
    have hindex : r.cursor + 1 + ((r.bufferSize - 1).toNat : ℤ) = r.bufferSize - 1 := by omega
    rwa [unreadIndex, hindex, ← hlast] at hread

/-- The provider has `n` UIDs for the seconds after `lastSecond` before it throws. -/
def Delivers (cb : Callbacks) (lastSecond : ℤ) (n : ℕ) : Prop :=
  ∃ k, n ≤ (borrowed cb lastSecond k).length ∧
    ∀ j : ℕ, 0 < j → j ≤ k → ∃ uidList, cb.uidProvider (toLong (lastSecond + j)) = .ok uidList

theorem length_borrowed_le (cb : Callbacks) (lastSecond : ℤ) {k m : ℕ} (hle : k ≤ m) :
    (borrowed cb lastSecond k).length ≤ (borrowed cb lastSecond m).length := by
  obtain ⟨d, rfl⟩ := Nat.exists_eq_add_of_le hle
  rw [borrowed_add, List.length_append]
  omega

/-- A pass leaves no room exactly when the provider delivers enough. -/
theorem Passes.room_iff {k : ℕ} {calls : List UserCall} {out : Except Throwable Unit}
    (h : Passes cb p held k calls out p') (hpos : 0 < k) :
    p'.ringBuffer.room = 0 ↔ Delivers cb p.executor.lastSecond p.ringBuffer.room := by
  have hroom := h.fills.room
  rw [List.length_take] at hroom
  have hmany : p'.ringBuffer.room = 0 ↔
      p.ringBuffer.room ≤ (borrowed cb p.executor.lastSecond k).length := by omega
  rw [hmany]
  have hlast : ((k - 1 : ℕ) : ℤ) + 1 = k := by omega
  have hsplit : borrowed cb p.executor.lastSecond k = borrowed cb p.executor.lastSecond (k - 1) ++
      provided cb (toLong (p.executor.lastSecond + k)) := by
    conv_lhs => rw [← Nat.sub_add_cancel hpos, borrowed_add, borrowed_one]
    rw [add_assoc, hlast]
  have hends := h.ends
  cases hends with
  | full uid hnext =>
    obtain ⟨hlt, -⟩ := List.getElem?_eq_some_iff.1 hnext
    refine iff_of_true hlt.le ⟨k, hlt.le, fun j hj hle => ?_⟩
    rcases hle.lt_or_eq with hjk | rfl
    · exact h.answered j hjk hj
    · have hbefore := h.before (j - 1) (by omega)
      rw [hsplit, List.length_append] at hlt
      cases hprov : cb.uidProvider (toLong (p.executor.lastSecond + j)) with
      | ok uidList => exact ⟨uidList, rfl⟩
      | error e =>
        rw [provided, hprov] at hlt
        simp at hlt
        omega
  | threw e hrefused hfits =>
    rw [provided, hrefused, List.append_nil] at hsplit
    constructor
    · intro hle
      refine ⟨k - 1, by rwa [← hsplit], fun j hj hjk => h.answered j (by omega) hj⟩
    · rintro ⟨m, hm, hanswers⟩
      rcases Nat.lt_or_ge m k with hlt | hge
      · exact hm.trans (length_borrowed_le cb _ hlt.le)
      · obtain ⟨uidList, hok⟩ := hanswers k hpos hge
        rw [hrefused] at hok
        cases hok

/-- A take of an empty ring that nothing was ever taken from asks for a pass that fills
every slot. -/
def FallsThrough (cb : Callbacks) (p : PaddedRing) : Prop :=
  p.ringBuffer.cursor = START_POINT ∧ p.ringBuffer.tail = START_POINT ∧
    Triggers p START_POINT ∧ p.executor.bufferPadExecutorsShutdown = false ∧
    p.executor.running = false ∧ Delivers cb p.executor.lastSecond p.ringBuffer.bufferSize.toNat

theorem room_of_start (hcursor : r.cursor = START_POINT) (htail : r.tail = START_POINT) :
    r.room = r.bufferSize.toNat := by
  rw [room, distance, if_pos hcursor, htail, START_POINT]
  congr 1
  ring

/-- The pass of a take on an empty ring at its start makes the slot at the cursor taken. -/
theorem start_pass_iff (h : Serves p.ringBuffer uids taken)
    (hempty : p.ringBuffer.cursor = p.ringBuffer.tail)
    (hbound : p.ringBuffer.cursor + p.ringBuffer.bufferSize ≤ 2 ^ 63)
    (hstart : p.ringBuffer.cursor = START_POINT) {mid : PaddedRing}
    (htrigger : p.triggerPadding cb fuel p.ringBuffer.cursor = some (.ok (), mid)) :
    mid.ringBuffer.room = 0 ↔ FallsThrough cb p := by
  have htail : p.ringBuffer.tail = START_POINT := hempty.symm.trans hstart
  have hroom := room_of_start hstart htail
  have hpos : p.ringBuffer.room ≠ 0 := by
    have := p.ringBuffer.bufferSize_pos
    omega
  rw [hstart] at htrigger
  rcases triggerPadding_cases htrigger with ⟨hquiet, -, rfl⟩ | ⟨-, -, herr, -⟩ |
    ⟨hbelow, hlive, -, out, hpad⟩
  · exact iff_of_false hpos fun hfalls => hquiet hfalls.2.2.1
  · cases herr
  · rcases paddingBuffer_steps hpad with ⟨hrunning, -, rfl⟩ | ⟨hidle, -⟩
    · apply iff_of_false hpos
      intro hfalls
      have hidle := hfalls.2.2.2.2.1
      rw [hrunning] at hidle
      cases hidle
    · obtain ⟨k, calls, mid', hk, -, hpass, rfl⟩ := paddingBuffer_passes h.admits
        (by simp) (h.admits.tail_add_room hbound) hidle hpad
      rw [release_ringBuffer, hpass.room_iff hk]
      change Delivers cb p.executor.lastSecond p.ringBuffer.room ↔ _
      rw [hroom]
      exact ⟨fun hdelivers => ⟨hstart, htail, hbelow, hlive, hidle, hdelivers⟩,
        fun hfalls => hfalls.2.2.2.2.2⟩

/-- A take of an empty ring throws unless it falls through, and then only its pass has
changed the ring. -/
theorem take_of_empty_iff (h : Serves p.ringBuffer uids taken)
    (hempty : p.ringBuffer.cursor = p.ringBuffer.tail)
    (hbound : p.ringBuffer.cursor + p.ringBuffer.bufferSize ≤ 2 ^ 63)
    (hreturns : ∀ r, cb.rejectedTakeHandler r = .ok ()) {outcome : Except Throwable ℤ}
    (htake : p.take cb fuel = some (outcome, p')) :
    ((∃ e, outcome = .error e) ↔ ¬FallsThrough cb p) ∧
      ((∃ e, outcome = .error e) → ∃ uidList, Padded p ∅ uidList p') := by
  obtain ⟨out, mid, htrigger, hrest⟩ := take_stuck h.admits hempty htake
  obtain ⟨uidList, hpadded⟩ := triggerPadding_padded h.admits (by simp) hbound htrigger
  have hfills := hpadded.fills
  rcases hrest with ⟨e, hthrows, rfl, rfl⟩ | ⟨rfl, r, hfinish, rfl⟩
  · obtain rfl : out = .error e := hthrows.resolve_right (by simp [hreturns])
    refine ⟨iff_of_true ⟨e, rfl⟩ fun hfalls => ?_, fun _ => ⟨uidList, hpadded⟩⟩
    rcases triggerPadding_cases htrigger with ⟨-, hok, -⟩ | ⟨-, hshut, -, -⟩ | ⟨-, -, hok, -⟩
    · cases hok
    · have := hfalls.2.2.2.1
      rw [hshut] at this
      cases this
    · cases hok
  · have hserves := h.fills hfills
    have hflag : mid.ringBuffer.flags (mid.ringBuffer.calSlotIndex p.ringBuffer.cursor) =
        CAN_TAKE_FLAG ↔ FallsThrough cb p := by
      rw [← hfills.cursor]
      by_cases hstart : p.ringBuffer.cursor = START_POINT
      · rw [hserves.start_flag_iff (hfills.cursor.trans hstart),
          start_pass_iff h hempty hbound hstart htrigger]
      · have h0 : 0 ≤ mid.ringBuffer.cursor := by
          have hlo : (-1 : ℤ) ≤ mid.ringBuffer.cursor := hserves.admits.start_le
          rw [START_POINT, ← hfills.cursor] at hstart
          omega
        rw [hserves.admits.cursor_free h0]
        exact iff_of_false (by decide) fun hfalls => hstart hfalls.1
    rw [← hflag]
    have hout := finish_fst mid.ringBuffer p.ringBuffer.cursor
    rw [hfinish] at hout
    by_cases htaken : mid.ringBuffer.flags (mid.ringBuffer.calSlotIndex p.ringBuffer.cursor) =
        CAN_TAKE_FLAG
    · rw [if_pos htaken] at hout
      simp only at hout
      exact ⟨iff_of_false (by simp [hout]) (not_not.2 htaken), by simp [hout]⟩
    · rw [if_neg htaken] at hout
      simp only at hout
      refine ⟨iff_of_true ⟨_, hout⟩ htaken, fun _ => ⟨uidList, ?_⟩⟩
      obtain ⟨-, rfl⟩ := Prod.mk.inj ((finish_refused htaken).symm.trans hfinish)
      exact hpadded

structure Takes (cb : Callbacks) (p : PaddedRing) (uids : List ℤ) (taken fuel : ℕ)
    (outcome : Except Throwable ℤ) (uid : ℤ) (uidList : List ℤ) (mid p' : PaddedRing) : Prop where
  returned : outcome = .ok uid
  stored : uids[taken]? = some uid
  padding : (moveCursor p (p.ringBuffer.cursor + 1)).triggerPadding cb fuel (p.ringBuffer.cursor + 1) =
    some (.ok (), mid)
  padded : Padded (moveCursor p (p.ringBuffer.cursor + 1)) {p.ringBuffer.cursor + 1} uidList mid
  serves : Serves p'.ringBuffer (uids ++ uidList.map toLong) (taken + 1)
  shape : SameShape p.ringBuffer p'.ringBuffer
  cursor : p'.ringBuffer.cursor = p.ringBuffer.cursor + 1
  tail : p'.ringBuffer.tail = mid.ringBuffer.tail
  rest : p' = { mid with ringBuffer := p'.ringBuffer }

theorem Serves.take (h : Serves p.ringBuffer uids taken)
    (hne : p.ringBuffer.cursor ≠ p.ringBuffer.tail)
    (hbound : p.ringBuffer.cursor + p.ringBuffer.bufferSize < 2 ^ 63) (hkeeps : ¬Loses p)
    {outcome : Except Throwable ℤ} (htake : p.take cb fuel = some (outcome, p')) :
    ∃ uid uidList mid, Takes cb p uids taken fuel outcome uid uidList mid p' := by
  have havailable : taken < uids.length := lt_of_le_of_ne h.represents.claimed_le fun heq =>
    hne (h.represents.cursor_eq_tail_iff.2 heq)
  obtain ⟨hclaim, hmoved⟩ := h.admits.claim hne
  rw [insert_empty_eq] at hmoved
  obtain ⟨hnext, hrep, -, -, -⟩ := h.represents.claim havailable hclaim
  obtain ⟨out, mid, htrigger, hrest⟩ := take_forward h.admits hne htake
  obtain ⟨uidList, hpadded⟩ := triggerPadding_padded (p := moveCursor p (p.ringBuffer.cursor + 1))
    hmoved (by simp [moveCursor]) (by simp only [moveCursor]; omega) htrigger
  have hfills := hpadded.fills
  rcases hrest with ⟨e, rfl, -, -⟩ | ⟨rfl, r, hfinish, rfl⟩
  · rcases triggerPadding_cases htrigger with ⟨-, hok, -⟩ | ⟨hbelow, hshut, -, -⟩ | ⟨-, -, hok, -⟩
    · cases hok
    · exact absurd ⟨hne, Or.inr ⟨hbelow.2, hshut, hbelow.1⟩⟩ hkeeps
    · cases hok
  · have hmid := hrep.putAll hfills.puts
    obtain ⟨uid, r₁, huid, hfinish', hrep', hshape, htail, hcursor⟩ :=
      hmid.finish (Finset.mem_insert_self taken ∅)
    rw [← hnext, hfinish, Prod.mk.injEq] at hfinish'
    obtain ⟨rfl, rfl⟩ := hfinish'
    rw [List.getElem?_append_left havailable] at huid
    rw [Finset.erase_insert (Finset.notMem_empty taken)] at hrep'
    have hadmits := hfills.admits.finish hfinish
    rw [Set.sdiff_self] at hadmits
    have hnew : r.cursor = p.ringBuffer.cursor + 1 := hcursor.trans hfills.cursor
    have hcount : r.cursor = (taken + 1 : ℕ) - 1 := by
      rw [hnew, h.cursor]
      push_cast
      ring
    exact ⟨uid, uidList, mid, rfl, huid, htrigger, hpadded, ⟨hrep', hadmits, hcount⟩,
      ⟨hshape.1.trans hfills.shape.1, hshape.2.trans hfills.shape.2⟩, hnew, htail, rfl⟩

theorem Serves.put (h : Serves r uids taken) (hbound : r.cursor + r.bufferSize ≤ 2 ^ 63)
    {handler : RingBuffer → ℤ → Except Throwable Unit} {uid : ℤ} {out : Except Throwable Bool}
    (hput : r.put handler uid = (out, r')) : ∃ added, Serves r' (uids ++ added) taken := by
  cases htry : r.tryPut uid with
  | none =>
    have hsame : r' = r := by
      rw [RingBuffer.put, htry] at hput
      cases hreject : handler r uid <;> simp only [hreject, Prod.mk.injEq] at hput <;>
        exact hput.2.symm
    exact ⟨[], by rw [hsame, List.append_nil]; exact h⟩
  | some r₁ =>
    rw [RingBuffer.put, htry, Prod.mk.injEq] at hput
    obtain ⟨-, rfl⟩ := hput
    have hroom : 0 < r.room := h.admits.room_pos_iff.2 (tryPut_some htry).1
    have hwrap := h.admits.tail_add_room hbound
    obtain ⟨hadmits, -, hcursor, -, -⟩ := h.admits.put (by omega) htry
    exact ⟨_, (h.represents.put htry).1, hadmits, hcursor.trans h.cursor⟩

/-- The sequences stay clear of the wrap, and a take neither loses its UID nor falls through. -/
def Safe (cb : Callbacks) (p : PaddedRing) (e : PaddedEvent) : Prop :=
  p.ringBuffer.cursor + p.ringBuffer.bufferSize < 2 ^ 63 ∧
    ∀ outcome, e = .take outcome → ¬Loses p ∧ ¬FallsThrough cb p

def SafeStep (cb : Callbacks) (p : PaddedRing) (e : PaddedEvent) (p' : PaddedRing) : Prop :=
  PaddedStep cb p e p' ∧ Safe cb p e

/-- What is unread, with what is added, is returned or unread afterwards. -/
def Conserves (p : PaddedRing) (returned : List ℤ) (p' : PaddedRing) : Prop :=
  ∃ added, p.ringBuffer.unreadUids ++ added = returned ++ p'.ringBuffer.unreadUids

theorem Conserves.trans {returned later : List ℤ} {q : PaddedRing} (h : Conserves p returned p')
    (h' : Conserves p' later q) : Conserves p (returned ++ later) q := by
  obtain ⟨added, heq⟩ := h
  obtain ⟨more, heq'⟩ := h'
  exact ⟨added ++ more, by rw [← List.append_assoc, heq, List.append_assoc, heq', List.append_assoc]⟩

theorem Serves.conserves (h : Serves p.ringBuffer uids taken) {added : List ℤ}
    (h' : Serves p'.ringBuffer (uids ++ added) taken) : Conserves p [] p' := by
  refine ⟨added, ?_⟩
  rw [h.represents.unreadUids_eq, h'.represents.unreadUids_eq, List.nil_append,
    List.drop_append_of_le_length h.represents.claimed_le]

theorem Serves.conserves_take (h : Serves p.ringBuffer uids taken) {added : List ℤ} {uid : ℤ}
    (hstored : uids[taken]? = some uid)
    (h' : Serves p'.ringBuffer (uids ++ added) (taken + 1)) : Conserves p [uid] p' := by
  obtain ⟨hlt, hget⟩ := List.getElem?_eq_some_iff.1 hstored
  refine ⟨added, ?_⟩
  rw [h.represents.unreadUids_eq, h'.represents.unreadUids_eq,
    List.drop_append_of_le_length (by omega), ← List.append_assoc, ← hget,
    List.singleton_append, ← List.drop_eq_getElem_cons]

/-- The rings that a safe step leads to. -/
theorem Serves.step (h : Serves p.ringBuffer uids taken)
    (hreturns : ∀ r, cb.rejectedTakeHandler r = .ok ()) {e : PaddedEvent} (hstep : SafeStep cb p e p') :
    ∃ added, Serves p'.ringBuffer (uids ++ added) (taken + e.uid.toList.length) ∧
      Conserves p e.uid.toList p' := by
  obtain ⟨hstep, hbound, hsafe⟩ := hstep
  cases event_cases hstep with
  | put uid out r hevent hput hstate =>
    subst hevent hstate
    obtain ⟨added, hserves⟩ := h.put hbound.le hput
    exact ⟨added, hserves, h.conserves hserves⟩
  | take fuel outcome hevent htake =>
    subst hevent
    obtain ⟨hkeeps, hfalls⟩ := hsafe outcome rfl
    by_cases hempty : p.ringBuffer.cursor = p.ringBuffer.tail
    · obtain ⟨hiff, hpadded⟩ := take_of_empty_iff h hempty hbound.le hreturns htake
      obtain ⟨e, rfl⟩ := hiff.2 hfalls
      obtain ⟨uidList, hfills⟩ := hpadded ⟨e, rfl⟩
      exact ⟨_, h.fills hfills.fills, h.conserves (h.fills hfills.fills)⟩
    · obtain ⟨uid, uidList, mid, htakes⟩ := h.take hempty hbound hkeeps htake
      rw [htakes.returned]
      exact ⟨_, htakes.serves, h.conserves_take htakes.stored htakes.serves⟩
  | pass first last fuel out hsilent hbefore hpad hafter =>
    rw [hsilent]
    have hfirst : Serves first.ringBuffer uids taken := by rwa [hbefore.1]
    obtain ⟨uidList, hpadded⟩ := paddingBuffer_padded hfirst.admits (by simp)
      (by rw [hbefore.1]; exact hbound.le) hpad
    have hserves := hfirst.fills hpadded.fills
    rw [← hafter.1] at hserves
    exact ⟨_, hserves, h.conserves hserves⟩
  | same hsilent hqueue =>
    rw [hsilent]
    have hserves : Serves p'.ringBuffer (uids ++ []) taken := by
      rwa [hqueue.1, List.append_nil]
    exact ⟨[], hserves, h.conserves hserves⟩

theorem Serves.run (h : Serves p.ringBuffer uids taken)
    (hreturns : ∀ r, cb.rejectedTakeHandler r = .ok ()) {events : List PaddedEvent}
    (hrun : Run (SafeStep cb) p events p') :
    ∃ added, Serves p'.ringBuffer (uids ++ added) (taken + (events.filterMap (·.uid)).length) ∧
      Conserves p (events.filterMap (·.uid)) p' := by
  induction hrun with
  | nil =>
    have hserves : Serves p.ringBuffer (uids ++ []) taken := by rwa [List.append_nil]
    exact ⟨[], hserves, h.conserves hserves⟩
  | snoc _ hstep ih =>
    obtain ⟨added, hserves, hconserves⟩ := ih
    obtain ⟨more, hserves', hconserves'⟩ := hserves.step hreturns hstep
    rw [filterMap_snoc, List.length_append, ← Nat.add_assoc]
    exact ⟨added ++ more, by rwa [← List.append_assoc], hconserves.trans hconserves'⟩

theorem serves_new {bufferSize : ℤ} {paddingFactor : ℚ}
    (hnew : RingBuffer.new bufferSize paddingFactor = .ok r) : Serves r [] 0 := by
  obtain ⟨hadmits, -, -, hcursor⟩ := admits_new hnew
  exact ⟨(represents_new hnew).1, hadmits, hcursor⟩

end UID
