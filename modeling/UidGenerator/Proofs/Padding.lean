import UidGenerator.Proofs.RingBuffer
import UidGenerator.Proofs.Steps

/-! Padding passes over the queue in a ring. A pass asks the provider for one
second after another and the ring accepts the UIDs in order, until it is full or
the provider throws. -/

namespace UID

open RingQueue RingBuffer

variable {cb : Callbacks} {r r' : RingBuffer} {p p' : PaddedRing} {uids added : List ℤ}
  {claimed k : ℕ} {pending : Finset ℕ}

def IsFull (r : RingBuffer) : Prop := ∃ uid, r.tryPut uid = none

/-- `r'` is `r` with the UIDs of `added` put to it. -/
structure Extends (r : RingBuffer) (uids : List ℤ) (claimed : ℕ) (pending : Finset ℕ)
    (added : List ℤ) (r' : RingBuffer) : Prop where
  represents : Represents r' (uids ++ added.map toLong) claimed pending
  shape : SameShape r r'
  cursor : r'.cursor = r.cursor

theorem extends_refl (h : Represents r uids claimed pending) :
    Extends r uids claimed pending [] r :=
  ⟨by simpa using h, ⟨rfl, rfl⟩, rfl⟩

theorem Extends.trans {more : List ℤ} {r₂ : RingBuffer} (h : Extends r uids claimed pending added r')
    (h₂ : Extends r' (uids ++ added.map toLong) claimed pending more r₂) :
    Extends r uids claimed pending (added ++ more) r₂ where
  represents := by simpa using h₂.represents
  shape := ⟨h₂.shape.1.trans h.shape.1, h₂.shape.2.trans h.shape.2⟩
  cursor := h₂.cursor.trans h.cursor

/-- What a handler does with a rejected put leaves the ring alone. -/
theorem put_cases (h : Represents r uids claimed pending)
    {handler : RingBuffer → ℤ → Except Throwable Unit} {uid : ℤ} {out : Except Throwable Bool}
    (hput : r.put handler uid = (out, r')) :
    (out = .ok true ∧ Extends r uids claimed pending [uid] r') ∨
      (out ≠ .ok true ∧ r' = r ∧ IsFull r) := by
  rcases put_steps hput with ⟨htry, rfl⟩ | ⟨htry, hsame, rfl⟩
  · obtain ⟨hrep, hshape, hcursor⟩ := h.put htry
    exact Or.inl ⟨rfl, by simpa using hrep, hshape, hcursor⟩
  · refine Or.inr ⟨?_, hsame, uid, htry⟩
    cases handler r uid <;> simp [Except.map]

/-- The UIDs of a second are accepted from the first on, all of them or until the ring is full. -/
theorem putAll_cases (h : Represents r uids claimed pending) {uidList : List ℤ}
    {out : Except Throwable Bool} (hputs : putAll cb r uidList = (out, r')) :
    ∃ added, Extends r uids claimed pending added r' ∧ added.Sublist uidList ∧
      (out = .ok false ∧ added = uidList ∨ out ≠ .ok false ∧ IsFull r') := by
  induction uidList generalizing r uids with
  | nil =>
    simp only [putAll, Prod.mk.injEq] at hputs
    obtain ⟨rfl, rfl⟩ := hputs
    exact ⟨[], extends_refl h, List.Sublist.refl _, Or.inl ⟨rfl, rfl⟩⟩
  | cons uid uidList ih =>
    rcases putAll_steps hputs with ⟨r₁, htry, hrest⟩ | ⟨htry, rfl, rfl⟩
    · obtain ⟨hrep, hshape, hcursor⟩ := h.put htry
      have hext : Extends r uids claimed pending [uid] r₁ := ⟨by simpa using hrep, hshape, hcursor⟩
      obtain ⟨added, hadded, hsub, hout⟩ := ih hext.represents hrest
      refine ⟨uid :: added, hext.trans hadded, hsub.cons_cons uid, ?_⟩
      rcases hout with ⟨hok, rfl⟩ | hstop
      · exact Or.inl ⟨hok, rfl⟩
      · exact Or.inr hstop
    · refine ⟨[], extends_refl h, List.nil_sublist _, Or.inr ⟨?_, uid, htry⟩⟩
      cases cb.rejectedPutHandler _ uid <;> simp [Except.map]

def provided (cb : Callbacks) (second : ℤ) : List ℤ :=
  match cb.uidProvider second with
  | .ok uidList => uidList
  | .error _ => []

theorem provided_of_ok {second : ℤ} {uidList : List ℤ} (hprov : cb.uidProvider second = .ok uidList) :
    provided cb second = uidList := by
  rw [provided, hprov]

def borrowed (cb : Callbacks) (lastSecond : ℤ) (k : ℕ) : List ℤ :=
  (List.range k).flatMap fun i : ℕ => provided cb (toLong (lastSecond + (1 + i)))

theorem borrowed_congr (cb : Callbacks) {a b : ℤ} (h : toLong a = toLong b) (k : ℕ) :
    borrowed cb a k = borrowed cb b k := by
  have hshift (i : ℕ) : toLong (a + (1 + i)) = toLong (b + (1 + i)) := by
    rw [← toLong_add_toLong, h, toLong_add_toLong]
  simp only [borrowed, hshift]

theorem borrowed_one (cb : Callbacks) (lastSecond : ℤ) :
    borrowed cb lastSecond 1 = provided cb (toLong (lastSecond + 1)) := by
  simp [borrowed]

theorem borrowed_add (cb : Callbacks) (lastSecond : ℤ) (k m : ℕ) :
    borrowed cb lastSecond (k + m) = borrowed cb lastSecond k ++ borrowed cb (lastSecond + k) m := by
  have hshift (i : ℕ) : lastSecond + (1 + (k + i : ℕ)) = lastSecond + k + (1 + i) := by
    push_cast
    ring
  simp only [borrowed, List.range_add, List.flatMap_append, List.flatMap_map, hshift]

/-- The provider has a UID for every second it does not refuse. -/
def ProvidesSome (cb : Callbacks) : Prop :=
  ∀ second uidList, cb.uidProvider second = .ok uidList → uidList ≠ []

/-- What `k` borrowed seconds, of which `added` was accepted, do to a ring and its executor. -/
structure Borrows (cb : Callbacks) (p : PaddedRing) (uids : List ℤ) (claimed : ℕ)
    (pending : Finset ℕ) (k : ℕ) (added : List ℤ) (p' : PaddedRing) : Prop where
  ring : Extends p.ringBuffer uids claimed pending added p'.ringBuffer
  sublist : added.Sublist (borrowed cb p.executor.lastSecond k)
  lastSecond : toLong p'.executor.lastSecond = toLong (p.executor.lastSecond + k)
  isLong : IsLong p.executor.lastSecond → IsLong p'.executor.lastSecond
  bound : ProvidesSome cb → k ≤ added.length + 1
  attached : p'.attached = p.attached
  shutdown : p'.executor.bufferPadExecutorsShutdown = p.executor.bufferPadExecutorsShutdown
  schedule : p'.executor.bufferPadSchedule = p.executor.bufferPadSchedule

theorem borrows_zero (h : Represents p.ringBuffer uids claimed pending) :
    Borrows cb p uids claimed pending 0 [] p :=
  ⟨extends_refl h, List.nil_sublist _, by simp, id, fun _ => Nat.zero_le _, rfl, rfl, rfl⟩

/-- One round of the loop. -/
theorem borrows_one (h : Extends p.ringBuffer uids claimed pending added r)
    (hsub : added.Sublist (provided cb p.nextSecond.executor.lastSecond)) :
    Borrows cb p uids claimed pending 1 added { p.nextSecond with ringBuffer := r } where
  ring := h
  sublist := by rwa [borrowed_one]
  lastSecond := by simp [PaddedRing.nextSecond]
  isLong := fun _ => isLong_toLong _
  bound := fun _ => by omega
  attached := rfl
  shutdown := rfl
  schedule := rfl

theorem Borrows.trans {m : ℕ} {more : List ℤ} {p₂ : PaddedRing}
    (h : Borrows cb p uids claimed pending k added p')
    (h₂ : Borrows cb p' (uids ++ added.map toLong) claimed pending m more p₂)
    (hfull : ProvidesSome cb → k ≤ added.length) :
    Borrows cb p uids claimed pending (k + m) (added ++ more) p₂ where
  ring := h.ring.trans h₂.ring
  sublist := by
    rw [borrowed_add, ← borrowed_congr cb h.lastSecond]
    exact h.sublist.append h₂.sublist
  lastSecond := by
    rw [h₂.lastSecond, ← toLong_add_toLong, h.lastSecond, toLong_add_toLong]
    push_cast
    rw [add_assoc]
  isLong := fun hlong => h₂.isLong (h.isLong hlong)
  bound := fun hsome => by
    have := hfull hsome
    have := h₂.bound hsome
    rw [List.length_append]
    omega
  attached := h₂.attached.trans h.attached
  shutdown := h₂.shutdown.trans h.shutdown
  schedule := h₂.schedule.trans h.schedule

theorem paddingLoop_cases (h : Represents p.ringBuffer uids claimed pending) {fuel : ℕ}
    {out : Except Throwable Unit} (hloop : p.paddingLoop cb fuel = some (out, p')) :
    ∃ k added, Borrows cb p uids claimed pending k added p' ∧
      p'.executor.running = p.executor.running ∧ (out = .ok () → IsFull p'.ringBuffer) := by
  induction fuel generalizing p uids with
  | zero => simp [PaddedRing.paddingLoop] at hloop
  | succ fuel ih =>
    cases paddingLoop_steps hloop with
    | threw e _ hout hrest =>
      subst hout hrest
      exact ⟨1, [], borrows_one (extends_refl h) (List.nil_sublist _), rfl, by simp⟩
    | stopped uidList full r hprov hputs hstop hout hrest =>
      subst hout hrest
      have hlist := provided_of_ok hprov
      obtain ⟨added, hext, hsub, ⟨hok, -⟩ | ⟨-, hfull⟩⟩ := putAll_cases h hputs
      · exact absurd hok hstop
      · exact ⟨1, added, borrows_one hext (hlist ▸ hsub), rfl, fun _ => hfull⟩
    | more uidList r hprov hputs hloop =>
      have hlist := provided_of_ok hprov
      obtain ⟨added, hext, hsub, ⟨-, hall⟩ | ⟨hstop, -⟩⟩ := putAll_cases h hputs
      · have hround := borrows_one hext (hlist ▸ hsub)
        obtain ⟨k, more, hrest, hrunning, hfull⟩ := ih hext.represents hloop
        refine ⟨1 + k, added ++ more, hround.trans hrest ?_, hrunning, hfull⟩
        intro hsome
        rw [hall]
        exact List.length_pos_iff.2 (hsome _ _ hprov)
      · exact absurd rfl hstop

theorem Borrows.of_setRunning {b : Bool}
    (h : Borrows cb (p.setRunning b) uids claimed pending k added p') :
    Borrows cb p uids claimed pending k added p' :=
  ⟨h.ring, h.sublist, h.lastSecond, h.isLong, h.bound, h.attached, h.shutdown, h.schedule⟩

theorem Borrows.setRunning (h : Borrows cb p uids claimed pending k added p') (b : Bool) :
    Borrows cb p uids claimed pending k added (p'.setRunning b) :=
  ⟨h.ring, h.sublist, h.lastSecond, h.isLong, h.bound, h.attached, h.shutdown, h.schedule⟩

/-- A pass does nothing while another runs; a pass that ends well leaves the ring full. -/
theorem paddingBuffer_cases (h : Represents p.ringBuffer uids claimed pending) {fuel : ℕ}
    {out : Except Throwable Unit} (hpad : p.paddingBuffer cb fuel = some (out, p')) :
    ∃ k added, Borrows cb p uids claimed pending k added p' ∧
      (p.executor.running = true ∧ out = .ok () ∧ p' = p ∨
        p.executor.running = false ∧ (out = .ok () → IsFull p'.ringBuffer) ∧
          (p'.executor.running = true ↔ out ≠ .ok ())) := by
  rcases paddingBuffer_steps hpad with ⟨hrunning, rfl, rfl⟩ | ⟨hidle, mid, hloop, rfl⟩
  · exact ⟨0, [], borrows_zero h, Or.inl ⟨hrunning, rfl, rfl⟩⟩
  · obtain ⟨k, added, hborrows, hkeep, hfull⟩ := paddingLoop_cases (p := p.setRunning true) h hloop
    have hborrows := hborrows.of_setRunning
    cases out with
    | error e =>
      exact ⟨k, added, hborrows, Or.inr ⟨hidle, by simp,
        by simp [PaddedRing.release, hkeep, PaddedRing.setRunning]⟩⟩
    | ok _ =>
      refine ⟨k, added, hborrows.setRunning false, Or.inr ⟨hidle, fun _ => hfull rfl, ?_⟩⟩
      simp [PaddedRing.release, PaddedRing.setRunning]

theorem triggerPadding_borrows (h : Represents p.ringBuffer uids claimed pending) {fuel : ℕ}
    {nextCursor : ℤ} {out : Except Throwable Unit}
    (htrigger : p.triggerPadding cb fuel nextCursor = some (out, p')) :
    ∃ k added, Borrows cb p uids claimed pending k added p' := by
  rcases triggerPadding_cases htrigger with ⟨-, -, rfl⟩ | ⟨-, -, -, rfl⟩ | ⟨-, -, -, out', hpad⟩
  · exact ⟨0, [], borrows_zero h⟩
  · exact ⟨0, [], borrows_zero h⟩
  · obtain ⟨k, added, hborrows, -⟩ := paddingBuffer_cases h hpad
    exact ⟨k, added, hborrows⟩

/-- A take from this state moves the cursor and then throws without reading the slot:
the cursor wraps, or the pass it asks for is rejected. -/
def Loses (p : PaddedRing) : Prop :=
  p.ringBuffer.cursor ≠ p.ringBuffer.tail ∧
    (p.ringBuffer.cursor = 2 ^ 63 - 1 ∨ p.attached = true ∧
      p.executor.bufferPadExecutorsShutdown = true ∧
      p.ringBuffer.tail - (p.ringBuffer.cursor + 1) < p.ringBuffer.paddingThreshold)

theorem toLong_succ_cases {c : ℤ} (h : IsLong c) :
    c = 2 ^ 63 - 1 ∧ toLong (c + 1) < c ∨ c ≠ 2 ^ 63 - 1 ∧ toLong (c + 1) = c + 1 := by
  by_cases hc : c = 2 ^ 63 - 1
  · left
    subst hc
    exact ⟨rfl, by decide⟩
  · exact Or.inr ⟨hc, toLong_eq_self ⟨by have := h.1; omega, by have := h.2; omega⟩⟩

/-- What a finished `take` can do, with the reject handler that throws. -/
inductive TakeCases (cb : Callbacks) (p : PaddedRing) (uids : List ℤ) (claimed : ℕ)
    (pending : Finset ℕ) (fuel : ℕ) (outcome : Except Throwable ℤ) (p' : PaddedRing) : Prop
  | lost (e : Throwable) (failed : outcome = .error e) (available : claimed < uids.length)
      (loses : Loses p) (ring : Represents p'.ringBuffer uids (claimed + 1) (insert claimed pending))
      (rest : p' = moveCursor p p'.ringBuffer.cursor)
  | rejected (e : Throwable) (failed : outcome = .error e) (empty : claimed = uids.length)
      (k : ℕ) (added : List ℤ) (borrows : Borrows cb p uids claimed pending k added p')
  | taken (uid : ℤ) (k : ℕ) (added : List ℤ) (mid : PaddedRing)
      (returned : outcome = .ok uid) (stored : uids[claimed]? = some uid) (keeps : ¬Loses p)
      (moved : Represents (moveCursor p (p.ringBuffer.cursor + 1)).ringBuffer uids (claimed + 1)
        (insert claimed pending))
      (padding : (moveCursor p (p.ringBuffer.cursor + 1)).triggerPadding cb fuel
        (p.ringBuffer.cursor + 1) = some (.ok (), mid))
      (borrows : Borrows cb (moveCursor p (p.ringBuffer.cursor + 1)) uids (claimed + 1)
        (insert claimed pending) k added mid)
      (ring : Represents p'.ringBuffer (uids ++ added.map toLong) (claimed + 1) pending)
      (shape : SameShape mid.ringBuffer p'.ringBuffer) (tail : p'.ringBuffer.tail = mid.ringBuffer.tail)
      (cursor : p'.ringBuffer.cursor = mid.ringBuffer.cursor)
      (rest : p' = { mid with ringBuffer := p'.ringBuffer })

theorem take_of_empty (h : Represents p.ringBuffer uids claimed pending)
    (hempty : claimed = uids.length)
    (hreject : cb.rejectedTakeHandler = RingBuffer.exceptionRejectedTakeBuffer) {fuel : ℕ}
    {outcome : Except Throwable ℤ} (htake : p.take cb fuel = some (outcome, p')) :
    TakeCases cb p uids claimed pending fuel outcome p' := by
  have hsteps := take_steps htake
  rw [h.claim_of_eq hempty] at hsteps
  cases hsteps with
  | back hback => exact absurd hback (lt_irrefl _)
  | refused e _ hpadding hout =>
    obtain ⟨k, added, hborrows⟩ := triggerPadding_borrows h hpadding
    exact .rejected e hout hempty k added hborrows
  | read mid _ hpadding hread =>
    obtain ⟨k, added, hborrows⟩ := triggerPadding_borrows h hpadding
    rcases readSlot_steps hread with ⟨e, -, -, hout, rfl⟩ | ⟨hok, -⟩
    · exact .rejected e hout hempty k added hborrows
    · rw [hreject] at hok
      cases hok rfl

/-- The cursor has moved to the UID that is there, and the pass is over. -/
theorem readSlot_of_claimed {mid : PaddedRing} {currentCursor nextCursor : ℤ}
    (h : Represents mid.ringBuffer (uids ++ added.map toLong) (claimed + 1)
      (insert claimed pending)) (hnext : nextCursor = toLong claimed)
    (hne : nextCursor ≠ currentCursor) (hfresh : claimed ∉ pending)
    (havailable : claimed < uids.length) {outcome : Except Throwable ℤ}
    (hread : mid.readSlot cb currentCursor nextCursor = (outcome, p')) :
    ∃ uid, outcome = .ok uid ∧ uids[claimed]? = some uid ∧
      Represents p'.ringBuffer (uids ++ added.map toLong) (claimed + 1) pending ∧
      SameShape mid.ringBuffer p'.ringBuffer ∧ p'.ringBuffer.tail = mid.ringBuffer.tail ∧
      p'.ringBuffer.cursor = mid.ringBuffer.cursor ∧ p' = { mid with ringBuffer := p'.ringBuffer } := by
  obtain ⟨uid, r₁, huid, hfinish, hrep, hshape, htail, hcursor⟩ :=
    h.finish (Finset.mem_insert_self claimed pending)
  rw [← hnext] at hfinish
  rcases readSlot_steps hread with ⟨-, heq, -⟩ | ⟨-, r, hslot, rfl⟩
  · exact absurd heq hne
  · obtain ⟨rfl, rfl⟩ := Prod.mk.inj (hfinish.symm.trans hslot)
    rw [List.getElem?_append_left havailable] at huid
    rw [Finset.erase_insert hfresh] at hrep
    exact ⟨uid, rfl, huid, hrep, hshape, htail, hcursor, rfl⟩

/-- A take that finds a UID, whatever the handlers are. -/
theorem take_of_available (h : Represents p.ringBuffer uids claimed pending)
    (havailable : claimed < uids.length) {fuel : ℕ} {outcome : Except Throwable ℤ}
    (htake : p.take cb fuel = some (outcome, p')) :
    TakeCases cb p uids claimed pending fuel outcome p' := by
  have hne : p.ringBuffer.cursor ≠ p.ringBuffer.tail := fun heq =>
    havailable.ne (h.cursor_eq_tail_iff.1 heq)
  have hlong : IsLong p.ringBuffer.cursor := h.cursor ▸ isLong_toLong _
  have hclaim : p.ringBuffer.claim = (toLong (p.ringBuffer.cursor + 1),
      { p.ringBuffer with cursor := toLong (p.ringBuffer.cursor + 1) }) := by
    rw [RingBuffer.claim, if_neg hne]
  obtain ⟨hnext, hrep, -, -, -⟩ := h.claim havailable hclaim
  have hfresh : claimed ∉ pending := fun hp => lt_irrefl _ (h.pending_lt _ hp)
  have hsteps := take_steps htake
  rw [hclaim] at hsteps
  rcases toLong_succ_cases hlong with ⟨hwrap, hback⟩ | ⟨hwrap, hforward⟩
  · cases hsteps with
    | back _ hout hrest =>
      subst hrest
      exact .lost _ hout havailable ⟨hne, Or.inl hwrap⟩ hrep rfl
    | refused _ hle => omega
    | read _ hle => omega
  · rw [hforward] at hsteps hrep hnext
    cases hsteps with
    | back hlt => omega
    | refused e _ hpadding hout =>
      rcases triggerPadding_cases hpadding with ⟨-, hok, -⟩ | ⟨hbelow, hshut, -, rfl⟩ | ⟨-, -, hok, -⟩
      · cases hok
      · exact .lost e hout havailable ⟨hne, Or.inr ⟨hbelow.2, hshut, hbelow.1⟩⟩ hrep rfl
      · cases hok
    | read mid _ hpadding hread =>
      obtain ⟨k, added, hborrows⟩ := triggerPadding_borrows
        (p := moveCursor p (p.ringBuffer.cursor + 1)) hrep hpadding
      obtain ⟨uid, hout, hstored, hrep', hshape, htail, hcursor, hrest⟩ :=
        readSlot_of_claimed hborrows.ring.represents hnext (by omega) hfresh havailable hread
      refine .taken uid k added mid hout hstored ?_ hrep hpadding hborrows hrep' hshape htail hcursor
        hrest
      rintro ⟨-, hmax | ⟨hattached, hshut, hbelow⟩⟩
      · exact hwrap hmax
      · rcases triggerPadding_cases hpadding with ⟨hquiet, -⟩ | ⟨-, -, herr, -⟩ | ⟨-, hlive, -⟩
        · exact hquiet ⟨hbelow, hattached⟩
        · cases herr
        · rw [moveCursor_executor, hshut] at hlive
          cases hlive

theorem take_cases (h : Represents p.ringBuffer uids claimed pending)
    (hreject : cb.rejectedTakeHandler = RingBuffer.exceptionRejectedTakeBuffer) {fuel : ℕ}
    {outcome : Except Throwable ℤ} (htake : p.take cb fuel = some (outcome, p')) :
    TakeCases cb p uids claimed pending fuel outcome p' := by
  rcases h.claimed_le.eq_or_lt with hempty | havailable
  · exact take_of_empty h hempty hreject htake
  · exact take_of_available h havailable htake

/-- The ring and the borrowed seconds are the same. -/
def SameQueue (p p' : PaddedRing) : Prop :=
  p'.ringBuffer = p.ringBuffer ∧ p'.executor.lastSecond = p.executor.lastSecond

theorem start_cases {out : Except Throwable Unit} (h : p.start = (out, p')) :
    p' = p ∨ ∃ schedule, p' = p.setSchedule schedule := by
  unfold PaddedRing.start at h
  split at h
  · exact Or.inl (Prod.mk.inj h).2.symm
  · split at h
    · exact Or.inl (Prod.mk.inj h).2.symm
    · exact Or.inr ⟨_, (Prod.mk.inj h).2.symm⟩

theorem start_sameQueue {out : Except Throwable Unit} (h : p.start = (out, p')) :
    SameQueue p p' := by
  rcases start_cases h with rfl | ⟨schedule, rfl⟩ <;> exact ⟨rfl, rfl⟩

theorem shutdown_sameQueue (p : PaddedRing) : SameQueue p p.shutdown := by
  simp only [PaddedRing.shutdown]
  split
  · exact ⟨rfl, rfl⟩
  · split <;> exact ⟨rfl, rfl⟩

/-- A timer runs a pass or nothing. -/
theorem fire_cases {fuel timer : ℕ} (h : p.fire cb fuel timer = some p') :
    SameQueue p p' ∨ ∃ schedule out mid,
      (p.setSchedule schedule).paddingBuffer cb fuel = some (out, mid) ∧ SameQueue mid p' := by
  simp only [PaddedRing.fire] at h
  split at h
  · exact Or.inl (by rw [← Option.some.inj h]; exact ⟨rfl, rfl⟩)
  · next schedule _ =>
    split_ifs at h
    · exact Or.inl (by rw [← Option.some.inj h]; exact ⟨rfl, rfl⟩)
    · split at h
      · cases h
      · next out mid hpad =>
        refine Or.inr ⟨_, out, mid, hpad, ?_⟩
        split at h <;> rw [← Option.some.inj h] <;> exact ⟨rfl, rfl⟩

inductive EventCases (cb : Callbacks) (p : PaddedRing) (e : PaddedEvent) (p' : PaddedRing) : Prop
  | put (uid : ℤ) (out : Except Throwable Bool) (r : RingBuffer) (event : e = .put uid out)
      (done : p.ringBuffer.put cb.rejectedPutHandler uid = (out, r))
      (state : p' = { p with ringBuffer := r })
  | take (fuel : ℕ) (outcome : Except Throwable ℤ) (event : e = .take outcome)
      (done : p.take cb fuel = some (outcome, p'))
  | pass (first last : PaddedRing) (fuel : ℕ) (out : Except Throwable Unit) (silent : e.uid = none)
      (before : SameQueue p first) (done : first.paddingBuffer cb fuel = some (out, last))
      (after : SameQueue last p')
  | same (silent : e.uid = none) (queue : SameQueue p p')

theorem event_cases {e : PaddedEvent} (h : PaddedStep cb p e p') : EventCases cb p e p' := by
  cases h with
  | put h => exact .put _ _ _ rfl h rfl
  | take h => exact .take _ _ rfl h
  | paddingBuffer h => exact .pass p p' _ _ rfl ⟨rfl, rfl⟩ h ⟨rfl, rfl⟩
  | asyncPadding h =>
    rcases asyncPadding_cases h with ⟨-, -, rfl⟩ | ⟨-, -, out, hpad⟩
    · exact .same rfl ⟨rfl, rfl⟩
    · exact .pass p p' _ out rfl ⟨rfl, rfl⟩ hpad ⟨rfl, rfl⟩
  | start h => exact .same rfl (start_sameQueue h)
  | shutdown => exact .same rfl (shutdown_sameQueue p)
  | fire _ _ h =>
    rcases fire_cases h with hsame | ⟨schedule, out, mid, hpad, hsame⟩
    · exact .same rfl hsame
    · exact .pass (p.setSchedule schedule) mid _ out rfl ⟨rfl, rfl⟩ hpad hsame

end UID
