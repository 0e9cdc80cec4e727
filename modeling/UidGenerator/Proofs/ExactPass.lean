import UidGenerator.Proofs.Capacity
import UidGenerator.Proofs.InTime
import UidGenerator.Proofs.Simulation

/-! What a padding pass does, exactly. The ring accepts the UIDs of the borrowed seconds
in order until its room is used up; the first one too many is rejected and ends the
pass, unless the provider throws before. -/

namespace UID

open RingQueue Transition RingBuffer

variable {cb : Callbacks} {r r' : RingBuffer} {p p' : PaddedRing} {held : Set ℤ} {uid : ℤ}
  {uidList : List ℤ} {fuel k : ℕ}

namespace RingBuffer

def tryPutAll (r : RingBuffer) (uidList : List ℤ) : Option RingBuffer :=
  uidList.foldlM RingBuffer.tryPut r

/-- `r'` is `r` with all the UIDs put to it, and nothing else has changed. -/
structure Fills (r : RingBuffer) (held : Set ℤ) (uidList : List ℤ) (r' : RingBuffer) : Prop where
  puts : r.tryPutAll uidList = some r'
  admits : Admits r' held
  shape : SameShape r r'
  cursor : r'.cursor = r.cursor
  tail : r'.tail = r.tail + uidList.length
  room : r'.room + uidList.length = r.room
  unread : r'.unreadUids = r.unreadUids ++ uidList.map toLong
  kept : ∀ c, r.Occupied held c → (r'.finish c).1 = (r.finish c).1

theorem fills_nil (h : Admits r held) : Fills r held [] r :=
  ⟨rfl, h, ⟨rfl, rfl⟩, rfl, by simp, rfl, by simp, fun _ _ => rfl⟩

theorem Admits.unreadCount_eq (h : Admits r held) : (r.unreadCount : ℤ) = r.tail - r.cursor := by
  have hstart : (-1 : ℤ) ≤ r.cursor := h.start_le
  have hle := h.cursor_le
  have hlt := h.tail_lt
  simp only [unreadCount, toUnsignedLong, LONG_BITS]
  omega

/-- The slots of the unread UIDs stay as they are, and the new one follows them. -/
theorem Admits.put_unread (h : Admits r held) (hheld : ∀ c ∈ held, c = r.cursor)
    (htail : r.tail + 1 < 2 ^ 63) (hput : r.tryPut uid = some r') :
    r'.unreadUids = r.unreadUids ++ [toLong uid] := by
  obtain ⟨hadmits, -, hcursor, hnext, hroom⟩ := h.put htail hput
  have hcount := h.unreadCount_eq
  have hcount' := hadmits.unreadCount_eq
  have hsucc : r'.unreadCount = r.unreadCount + 1 := by omega
  obtain ⟨-, -, rfl⟩ := tryPut_some hput
  rw [unreadUids, unreadUids, hsucc, List.range_succ, List.map_append, List.map_singleton]
  congr 1
  · refine List.map_congr_left fun i hi => Function.update_of_ne ?_ _ _
    have hi := List.mem_range.1 hi
    exact h.next_ne hheld (by omega) (Or.inr ⟨by omega, by omega⟩)
  · have hlast : r.cursor + 1 + (r.unreadCount : ℤ) = r.tail + 1 := by omega
    simp only [unreadIndex, calSlotIndex, indexMask, hlast, Function.update_self]

theorem finish_fst (r : RingBuffer) (c : ℤ) :
    (r.finish c).1 = if r.flags (r.calSlotIndex c) = CAN_TAKE_FLAG then
      .ok (r.slots (r.calSlotIndex c))
    else .error (.illegalArgument "Curosr not in can take status") := by
  by_cases hflag : r.flags (r.calSlotIndex c) = CAN_TAKE_FLAG
  · rw [finish_taken hflag, if_pos hflag]
  · rw [finish_refused hflag, if_neg hflag]

theorem Admits.put_kept (h : Admits r held) (hheld : ∀ c ∈ held, c = r.cursor)
    (hput : r.tryPut uid = some r') {c : ℤ} (hc : r.Occupied held c) :
    (r'.finish c).1 = (r.finish c).1 := by
  obtain ⟨hdistance, -, hr'⟩ := tryPut_some hput
  have hne := h.next_ne hheld (h.room_pos_iff.2 hdistance) hc
  have hindex : r'.calSlotIndex c = r.calSlotIndex c := by rw [hr']; rfl
  have hflag : r'.flags (r.calSlotIndex c) = r.flags (r.calSlotIndex c) := by
    rw [hr']
    exact Function.update_of_ne hne _ _
  have hslot : r'.slots (r.calSlotIndex c) = r.slots (r.calSlotIndex c) := by
    rw [hr']
    exact Function.update_of_ne hne _ _
  rw [finish_fst, finish_fst, hindex, hflag, hslot]

theorem Admits.fills_cons (h : Admits r held) (hheld : ∀ c ∈ held, c = r.cursor)
    (htail : r.tail + 1 < 2 ^ 63) (hput : r.tryPut uid = some r') {r₂ : RingBuffer}
    (hrest : Fills r' held uidList r₂) : Fills r held (uid :: uidList) r₂ := by
  obtain ⟨-, hshape, hcursor, hnext, hroom⟩ := h.put htail hput
  refine ⟨?_, hrest.admits, ⟨hrest.shape.1.trans hshape.1, hrest.shape.2.trans hshape.2⟩,
    hrest.cursor.trans hcursor, ?_, ?_, ?_, ?_⟩
  · rw [tryPutAll, List.foldlM_cons, hput]
    exact hrest.puts
  · rw [hrest.tail, hnext, List.length_cons]
    push_cast
    ring
  · have := hrest.room
    rw [List.length_cons]
    omega
  · rw [hrest.unread, h.put_unread hheld htail hput, List.append_assoc]
    rfl
  · intro c hc
    rw [hrest.kept c ?_, h.put_kept hheld hput hc]
    rcases hc with hc | ⟨hlo, hhi⟩
    · exact Or.inl hc
    · exact Or.inr ⟨by omega, by omega⟩

theorem Fills.append {more : List ℤ} {r₂ : RingBuffer} (h : Fills r held uidList r')
    (h₂ : Fills r' held more r₂) : Fills r held (uidList ++ more) r₂ := by
  refine ⟨?_, h₂.admits, ⟨h₂.shape.1.trans h.shape.1, h₂.shape.2.trans h.shape.2⟩,
    h₂.cursor.trans h.cursor, ?_, ?_, ?_, ?_⟩
  · rw [tryPutAll, List.foldlM_append]
    change (r.tryPutAll uidList).bind _ = _
    rw [h.puts]
    exact h₂.puts
  · rw [h₂.tail, h.tail, List.length_append]
    push_cast
    ring
  · have := h.room
    have := h₂.room
    rw [List.length_append]
    omega
  · rw [h₂.unread, h.unread, List.map_append, List.append_assoc]
  · intro c hc
    rw [h₂.kept c ?_, h.kept c hc]
    rcases hc with hc | ⟨hlo, hhi⟩
    · exact Or.inl hc
    · have := h.tail
      have := h.cursor
      exact Or.inr ⟨by omega, by omega⟩

end RingBuffer

/-- A ring takes as many UIDs as it has room for. -/
theorem RingBuffer.Admits.fill (h : Admits r held) (hheld : ∀ c ∈ held, c = r.cursor)
    (htail : r.tail + r.room < 2 ^ 63) (hlen : uidList.length ≤ r.room) :
    ∃ r', Fills r held uidList r' := by
  induction uidList generalizing r with
  | nil => exact ⟨r, fills_nil h⟩
  | cons uid uidList ih =>
    rw [List.length_cons] at hlen
    cases htry : r.tryPut uid with
    | none =>
      have := (h.tryPut_eq_none_iff hheld uid).1 htry
      omega
    | some r₁ =>
      have hnext : r.tail + 1 < 2 ^ 63 := by omega
      obtain ⟨hadmits, -, hcursor, htail₁, hroom₁⟩ := h.put hnext htry
      obtain ⟨r', hfills⟩ := ih hadmits (by rwa [hcursor]) (by omega) (by omega)
      exact ⟨r', h.fills_cons hheld hnext htry hfills⟩

/-- The loop over a second puts what is accepted and goes on with the rest. -/
theorem putAll_append (hputs : r.tryPutAll uidList = some r') (rest : List ℤ) :
    putAll cb r (uidList ++ rest) = putAll cb r' rest := by
  induction uidList generalizing r with
  | nil =>
    obtain rfl := Option.some.inj hputs
    rfl
  | cons uid uidList ih =>
    rw [tryPutAll, List.foldlM_cons] at hputs
    obtain ⟨r₁, htry, hrest⟩ := Option.bind_eq_some_iff.1 hputs
    rw [List.cons_append, putAll, RingBuffer.put, htry]
    exact ih hrest

theorem Machine.putAll_append (stack : List Frame) (caller : Caller)
    (hputs : p.ringBuffer.tryPutAll uidList = some r') (rest : List ℤ) :
    Machine.putAll ⟨p, stack, .nothing⟩ caller (uidList ++ rest) =
      Machine.putAll ⟨{ p with ringBuffer := r' }, stack, .nothing⟩ caller rest := by
  induction uidList generalizing p with
  | nil =>
    obtain rfl := Option.some.inj hputs
    rfl
  | cons uid uidList ih =>
    rw [tryPutAll, List.foldlM_cons] at hputs
    obtain ⟨r₁, htry, hrest⟩ := Option.bind_eq_some_iff.1 hputs
    rw [List.cons_append, Machine.putAll]
    simp only [htry]
    exact ih (p := { p with ringBuffer := r₁ }) hrest

/-- The first UID that the ring has no room for. -/
theorem RingBuffer.Fills.rejects (h : Fills r held (uidList.take r.room) r')
    (hheld : ∀ c ∈ held, c = r.cursor) (hnext : uidList[r.room]? = some uid) :
    r'.tryPut uid = none ∧ ∃ rest, uidList = uidList.take r.room ++ uid :: rest := by
  obtain ⟨hlt, hget⟩ := List.getElem?_eq_some_iff.1 hnext
  constructor
  · have hroom := h.room
    rw [List.length_take, min_eq_left hlt.le] at hroom
    exact (h.admits.tryPut_eq_none_iff (by rwa [h.cursor]) uid).2 (by omega)
  · refine ⟨uidList.drop (r.room + 1), ?_⟩
    rw [← hget, ← List.drop_eq_getElem_cons, List.take_append_drop]

/-- The UIDs of a second all fit, or the ring rejects the first one too many. -/
theorem RingBuffer.Admits.putAll_cases (h : Admits r held) (hheld : ∀ c ∈ held, c = r.cursor)
    (htail : r.tail + r.room < 2 ^ 63) (cb : Callbacks) (uidList : List ℤ) :
    (∃ r', uidList.length ≤ r.room ∧ Fills r held uidList r' ∧
        putAll cb r uidList = (.ok false, r')) ∨
      ∃ uid r', uidList[r.room]? = some uid ∧ Fills r held (uidList.take r.room) r' ∧
        putAll cb r uidList = ((cb.rejectedPutHandler r' uid).map fun _ => true, r') := by
  rcases Nat.lt_or_ge r.room uidList.length with hlt | hfits
  · right
    obtain ⟨r', hfills⟩ : ∃ r', Fills r held (uidList.take r.room) r' :=
      h.fill hheld htail (by simp)
    have hnext := List.getElem?_eq_getElem hlt
    obtain ⟨hreject, rest, hsplit⟩ := hfills.rejects hheld hnext
    refine ⟨_, r', hnext, hfills, ?_⟩
    conv_lhs => rw [hsplit, putAll_append hfills.puts, putAll, RingBuffer.put, hreject]
    cases cb.rejectedPutHandler r' uidList[r.room] <;> rfl
  · left
    obtain ⟨r', hfills⟩ := h.fill hheld htail hfits
    have hputs : putAll cb r (uidList ++ []) = putAll cb r' [] := putAll_append hfills.puts []
    rw [List.append_nil, putAll] at hputs
    exact ⟨r', hfits, hfills, hputs⟩

def secondsAfter (lastSecond : ℤ) (k : ℕ) : List ℤ :=
  (List.range k).map fun i : ℕ => toLong (lastSecond + (1 + i))

theorem secondsAfter_succ (lastSecond : ℤ) (k : ℕ) :
    secondsAfter lastSecond (1 + k) =
      toLong (lastSecond + 1) :: secondsAfter (toLong (lastSecond + 1)) k := by
  rw [secondsAfter, Nat.add_comm, List.range_succ_eq_map, List.map_cons, List.map_map]
  refine congrArg₂ List.cons (by simp) (List.map_congr_left fun i _ => ?_)
  rw [toLong_add_toLong]
  simp only [Function.comp_apply, Nat.succ_eq_add_one]
  push_cast
  congr 1
  ring

theorem borrowed_succ (cb : Callbacks) (lastSecond : ℤ) (k : ℕ) :
    borrowed cb lastSecond (1 + k) =
      provided cb (toLong (lastSecond + 1)) ++ borrowed cb (toLong (lastSecond + 1)) k := by
  rw [borrowed_add, borrowed_one, borrowed_congr cb (toLong_toLong (lastSecond + 1))]
  rfl

/-- How a pass over `k` seconds ends, after which calls of user code and how. -/
inductive PassEnds (cb : Callbacks) (lastSecond : ℤ) (room k : ℕ) (r' : RingBuffer) :
    List UserCall → Except Throwable Unit → Prop
  | full (uid : ℤ) (rejected : (borrowed cb lastSecond k)[room]? = some uid) :
      PassEnds cb lastSecond room k r'
        ((secondsAfter lastSecond k).map .uidProvider ++ [.rejectedPutHandler uid])
        (cb.rejectedPutHandler r' uid)
  | threw (e : Throwable) (refused : cb.uidProvider (toLong (lastSecond + k)) = .error e)
      (fits : (borrowed cb lastSecond k).length ≤ room) :
      PassEnds cb lastSecond room k r' ((secondsAfter lastSecond k).map .uidProvider) (.error e)

structure Passes (cb : Callbacks) (p : PaddedRing) (held : Set ℤ) (k : ℕ) (calls : List UserCall)
    (out : Except Throwable Unit) (p' : PaddedRing) : Prop where
  fills : Fills p.ringBuffer held
    ((borrowed cb p.executor.lastSecond k).take p.ringBuffer.room) p'.ringBuffer
  state : p' = ⟨p'.ringBuffer,
    { p.executor with lastSecond := toLong (p.executor.lastSecond + k) }, p.attached⟩
  before : ∀ j < k, (borrowed cb p.executor.lastSecond j).length ≤ p.ringBuffer.room
  answered : ∀ j < k, 0 < j → ∃ uidList,
    cb.uidProvider (toLong (p.executor.lastSecond + j)) = .ok uidList
  ends : PassEnds cb p.executor.lastSecond p.ringBuffer.room k p'.ringBuffer calls out
  asks : ∀ stack caller, Run (Asks cb) (Machine.askProvider ⟨p, stack, .nothing⟩ caller) calls
    (Machine.leavePass ⟨p'.release out, stack, .nothing⟩ out caller)

/-- The provider is asked for the next second. -/
theorem asks_provider (p : PaddedRing) (stack : List Frame) (caller : Caller) :
    Asks cb (Machine.askProvider ⟨p, stack, .nothing⟩ caller)
      (.uidProvider (toLong (p.executor.lastSecond + 1)))
      (Machine.provided ⟨p.nextSecond, stack, .nothing⟩ caller
        (cb.uidProvider (toLong (p.executor.lastSecond + 1)))) :=
  ⟨rfl, _, .provided rfl, .provided⟩

theorem Passes.threw_first (h : Admits p.ringBuffer held) {e : Throwable}
    (hprov : cb.uidProvider (toLong (p.executor.lastSecond + 1)) = .error e) :
    Passes cb p held 1 [.uidProvider (toLong (p.executor.lastSecond + 1))] (.error e)
      p.nextSecond where
  fills := by
    rw [borrowed_one, provided, hprov, List.take_nil]
    exact fills_nil h
  state := rfl
  before := by simp [borrowed]
  answered := by omega
  ends := .threw e hprov (by rw [borrowed_one, provided, hprov]; simp)
  asks := fun stack caller => by
    have hask : Asks cb _ _ _ := asks_provider p stack caller
    rw [hprov] at hask
    exact .cons hask .nil

/-- The ring rejects a UID of the first second. -/
theorem Passes.full_first (hprov : cb.uidProvider (toLong (p.executor.lastSecond + 1)) = .ok uidList)
    (hheld : ∀ c ∈ held, c = p.ringBuffer.cursor)
    (hfills : Fills p.ringBuffer held (uidList.take p.ringBuffer.room) r)
    (hnext : uidList[p.ringBuffer.room]? = some uid) :
    Passes cb p held 1
      [.uidProvider (toLong (p.executor.lastSecond + 1)), .rejectedPutHandler uid]
      (cb.rejectedPutHandler r uid) { p.nextSecond with ringBuffer := r } where
  fills := by rwa [borrowed_one, provided_of_ok hprov]
  state := rfl
  before := by simp [borrowed]
  answered := by omega
  ends := .full uid (by rwa [borrowed_one, provided_of_ok hprov])
  asks := fun stack caller => by
    obtain ⟨hreject, rest, hsplit⟩ := hfills.rejects hheld hnext
    have hask : Asks cb _ _ _ := asks_provider p stack caller
    rw [hprov, Machine.provided, hsplit,
      Machine.putAll_append (p := p.nextSecond) stack caller hfills.puts, Machine.putAll] at hask
    simp only [hreject] at hask
    have hanswer : Asks cb (Machine.wait ⟨{ p.nextSecond with ringBuffer := r }, stack, .nothing⟩
        (.rejectedPutHandler (some caller) uid)) (.rejectedPutHandler uid) _ :=
      ⟨rfl, _, .putHandled rfl, .putHandled rfl⟩
    refine .cons hask (.cons hanswer ?_)
    change Run _ (Machine.putHandled ⟨{ p.nextSecond with ringBuffer := r }, stack, .nothing⟩
      (cb.rejectedPutHandler r uid) (some caller)) [] _
    cases cb.rejectedPutHandler r uid <;> exact .nil

/-- The first second fits, and the loop goes on. -/
theorem Passes.cons {calls : List UserCall} {out : Except Throwable Unit}
    (hprov : cb.uidProvider (toLong (p.executor.lastSecond + 1)) = .ok uidList)
    (hfits : uidList.length ≤ p.ringBuffer.room) (hfills : Fills p.ringBuffer held uidList r)
    (hrest : Passes cb { p.nextSecond with ringBuffer := r } held k calls out p') :
    Passes cb p held (1 + k) (.uidProvider (toLong (p.executor.lastSecond + 1)) :: calls) out p' := by
  have hroom : r.room = p.ringBuffer.room - uidList.length := by
    have := hfills.room
    omega
  have hborrowed (j : ℕ) : borrowed cb p.executor.lastSecond (1 + j) =
      uidList ++ borrowed cb (toLong (p.executor.lastSecond + 1)) j := by
    rw [borrowed_succ, provided_of_ok hprov]
  have hsecond (j : ℕ) : toLong (toLong (p.executor.lastSecond + 1) + j) =
      toLong (p.executor.lastSecond + (1 + j : ℕ)) := by
    rw [toLong_add_toLong]
    push_cast
    rw [add_assoc]
  obtain ⟨hfills', hstate, hbefore, hanswered, hends, hasks⟩ := hrest
  simp only [PaddedRing.nextSecond, hroom, hsecond] at hfills' hstate hbefore hanswered hends
  refine ⟨?_, hstate, ?_, ?_, ?_, ?_⟩
  · rw [hborrowed, List.take_append, List.take_of_length_le hfits]
    exact hfills.append hfills'
  · intro j hj
    rcases j with - | j
    · simp [borrowed]
    · have := hbefore j (by omega)
      rw [Nat.add_comm, hborrowed, List.length_append]
      omega
  · intro j hj hpos
    rcases j with - | j
    · omega
    · rw [Nat.add_comm, ← hsecond]
      rcases j with - | j
      · exact ⟨uidList, by simpa using hprov⟩
      · rw [hsecond]
        exact hanswered _ (by omega) (by omega)
  · have hcalls : (secondsAfter p.executor.lastSecond (1 + k)).map UserCall.uidProvider =
        .uidProvider (toLong (p.executor.lastSecond + 1)) ::
          (secondsAfter (toLong (p.executor.lastSecond + 1)) k).map .uidProvider := by
      rw [secondsAfter_succ, List.map_cons]
    cases hends with
    | full uid hrejected =>
      rw [← List.cons_append, ← hcalls]
      refine .full uid ?_
      rw [hborrowed, List.getElem?_append_right hfits]
      exact hrejected
    | threw e hrefused hfit =>
      rw [← hcalls]
      refine .threw e (by rwa [← hsecond]) ?_
      rw [hborrowed, List.length_append]
      omega
  · intro stack caller
    have hask : Asks cb _ _ _ := asks_provider p stack caller
    have hputs := Machine.putAll_append (p := p.nextSecond) stack caller hfills.puts []
    rw [List.append_nil] at hputs
    rw [hprov, Machine.provided, hputs] at hask
    exact .cons hask (hasks stack caller)

/-- A finished loop is a run over some number of seconds. -/
theorem paddingLoop_passes (h : Admits p.ringBuffer held) (hheld : ∀ c ∈ held, c = p.ringBuffer.cursor)
    (htail : p.ringBuffer.tail + p.ringBuffer.room < 2 ^ 63) {out : Except Throwable Unit}
    (hloop : p.paddingLoop cb fuel = some (out, p')) :
    ∃ k calls, 0 < k ∧ k ≤ fuel ∧ Passes cb p held k calls out p' := by
  induction fuel generalizing p with
  | zero => simp [PaddedRing.paddingLoop] at hloop
  | succ fuel ih =>
    cases paddingLoop_steps hloop with
    | threw e hprov hout hrest =>
      subst hout hrest
      exact ⟨1, _, one_pos, by omega, Passes.threw_first h hprov⟩
    | stopped uidList full r hprov hputs hstop hout hrest =>
      subst hout hrest
      rcases h.putAll_cases hheld htail cb uidList with ⟨r', -, -, hall⟩ |
        ⟨uid, r', hnext, hfills, hreject⟩
      · obtain ⟨rfl, -⟩ := Prod.mk.inj (hputs.symm.trans hall)
        exact absurd rfl hstop
      · obtain ⟨rfl, rfl⟩ := Prod.mk.inj (hputs.symm.trans hreject)
        have hpass := Passes.full_first hprov hheld hfills hnext
        have hout : ((cb.rejectedPutHandler r uid).map fun _ => true).map (fun _ => ()) =
            cb.rejectedPutHandler r uid := by
          cases cb.rejectedPutHandler r uid <;> rfl
        rw [hout]
        exact ⟨1, _, one_pos, by omega, hpass⟩
    | more uidList r hprov hputs hloop =>
      rcases h.putAll_cases hheld htail cb uidList with ⟨r', hfits, hfills, hall⟩ |
        ⟨uid, r', -, -, hreject⟩
      · obtain ⟨-, rfl⟩ := Prod.mk.inj (hputs.symm.trans hall)
        have hroom := hfills.room
        have htail' := hfills.tail
        obtain ⟨k, calls, -, hfuel, hpass⟩ := ih (p := { p.nextSecond with ringBuffer := r })
          hfills.admits (by rw [hfills.cursor]; exact hheld) (by simp only; omega) hloop
        exact ⟨1 + k, _, by omega, by omega, hpass.cons hprov hfits hfills⟩
      · have hout := (Prod.mk.inj (hputs.symm.trans hreject)).1
        cases hreject : cb.rejectedPutHandler r' uid <;> simp [hreject, Except.map] at hout

/-- A pass that starts is a run of the loop; the flag stays set when it throws. -/
theorem paddingBuffer_passes (h : Admits p.ringBuffer held)
    (hheld : ∀ c ∈ held, c = p.ringBuffer.cursor)
    (htail : p.ringBuffer.tail + p.ringBuffer.room < 2 ^ 63) (hidle : p.executor.running = false)
    {out : Except Throwable Unit} (hpad : p.paddingBuffer cb fuel = some (out, p')) :
    ∃ k calls mid, 0 < k ∧ k ≤ fuel ∧ Passes cb (p.setRunning true) held k calls out mid ∧
      p' = mid.release out := by
  rcases paddingBuffer_steps hpad with ⟨hrunning, -⟩ | ⟨-, mid, hloop, rfl⟩
  · rw [hidle] at hrunning
    cases hrunning
  · obtain ⟨k, calls, hpos, hfuel, hpass⟩ :=
      paddingLoop_passes (p := p.setRunning true) h hheld htail hloop
    exact ⟨k, calls, mid, hpos, hfuel, hpass, rfl⟩

def Provides (cb : Callbacks) : Prop :=
  ∀ second, ∃ uidList, cb.uidProvider second = .ok uidList ∧ uidList ≠ []

/-- Such a pass is over as soon as it has provided one UID too many. -/
theorem Passes.ends_full {calls : List UserCall} {out : Except Throwable Unit} (hprov : Provides cb)
    (h : Passes cb p held k calls out p') :
    ∃ uid, IsLeast {k | p.ringBuffer.room < (borrowed cb p.executor.lastSecond k).length} k ∧
      (borrowed cb p.executor.lastSecond k)[p.ringBuffer.room]? = some uid ∧
      calls = (secondsAfter p.executor.lastSecond k).map .uidProvider ++ [.rejectedPutHandler uid] ∧
      out = cb.rejectedPutHandler p'.ringBuffer uid := by
  have hends := h.ends
  cases hends with
  | threw e hrefused _ =>
    obtain ⟨uidList, hok, -⟩ := hprov (toLong (p.executor.lastSecond + k))
    rw [hok] at hrefused
    cases hrefused
  | full uid hrejected =>
    refine ⟨uid, ⟨(List.getElem?_eq_some_iff.1 hrejected).1, fun j hj => ?_⟩, hrejected, rfl, rfl⟩
    by_contra hlt
    exact absurd (h.before j (by omega)) (not_le_of_gt hj)

end UID
