import UidGenerator.Proofs.Uniqueness
import UidGenerator.Proofs.Shutdown

/-! Runs after `destroy`. No pass refills the ring any more, and a take that would have
asked for one throws, so that the UIDs below the threshold are never returned. -/

namespace UID

open RingQueue RingBuffer Transition

variable {cb : Callbacks} {p p' mid : PaddedRing} {uids : List ℤ} {claimed fuel : ℕ}
  {pending : Finset ℕ} {outcome : Except Throwable ℤ}

inductive TakeReads (cb : Callbacks) (p : PaddedRing) (uids : List ℤ) (claimed : ℕ)
    (pending : Finset ℕ) (fuel : ℕ) (outcome : Except Throwable ℤ) (p' : PaddedRing) : Prop
  | empty (e : Throwable) (failed : outcome = .error e) (empty : claimed = uids.length)
      (out : Except Throwable Unit)
      (padding : p.triggerPadding cb fuel p.ringBuffer.cursor = some (out, p'))
  | lost (e : Throwable) (failed : outcome = .error e) (available : claimed < uids.length)
      (loses : Loses p) (ring : Represents p'.ringBuffer uids (claimed + 1) (insert claimed pending))
      (rest : p' = moveCursor p p'.ringBuffer.cursor)
  | read (mid : PaddedRing) (available : claimed < uids.length) (keeps : ¬Loses p)
      (moved : Represents (moveCursor p (p.ringBuffer.cursor + 1)).ringBuffer uids (claimed + 1)
        (insert claimed pending))
      (padding : (moveCursor p (p.ringBuffer.cursor + 1)).triggerPadding cb fuel
        (p.ringBuffer.cursor + 1) = some (.ok (), mid))
      (reads : ∀ added : List ℤ, Represents mid.ringBuffer (uids ++ added.map toLong) (claimed + 1)
          (insert claimed pending) →
        ∃ uid, outcome = .ok uid ∧ uids[claimed]? = some uid ∧
          Represents p'.ringBuffer (uids ++ added.map toLong) (claimed + 1) pending)
      (shape : SameShape mid.ringBuffer p'.ringBuffer)
      (rest : p' = { mid with ringBuffer := p'.ringBuffer })

theorem take_of_empty_reads (h : Represents p.ringBuffer uids claimed pending)
    (hempty : claimed = uids.length)
    (hreject : cb.rejectedTakeHandler = exceptionRejectedTakeBuffer)
    (htake : p.take cb fuel = some (outcome, p')) :
    TakeReads cb p uids claimed pending fuel outcome p' := by
  have hsteps := take_steps htake
  rw [h.claim_of_eq hempty] at hsteps
  cases hsteps with
  | back hback => exact absurd hback (lt_irrefl _)
  | refused e _ hpadding hout => exact .empty e hout hempty _ hpadding
  | read mid _ hpadding hread =>
    rcases readSlot_steps hread with ⟨e, -, -, hout, rfl⟩ | ⟨hok, -⟩
    · exact .empty e hout hempty _ hpadding
    · rw [hreject] at hok
      cases hok rfl

theorem take_reads (h : Represents p.ringBuffer uids claimed pending)
    (hreject : cb.rejectedTakeHandler = exceptionRejectedTakeBuffer)
    (htake : p.take cb fuel = some (outcome, p')) :
    TakeReads cb p uids claimed pending fuel outcome p' := by
  cases take_cases h hreject htake with
  | lost e hout havailable hloses hring hrest => exact .lost e hout havailable hloses hring hrest
  | rejected e hout hempty => exact take_of_empty_reads h hempty hreject htake
  | taken uid k added mid hout hstored hkeeps hmoved hpadding hborrows hring hshape htail hcursor hrest =>
    have havailable : claimed < uids.length := (List.getElem?_eq_some_iff.1 hstored).1
    have hfresh : claimed ∉ pending := fun hp => lt_irrefl _ (h.pending_lt _ hp)
    have hnext : p.ringBuffer.cursor + 1 = toLong claimed := by
      rw [show p.ringBuffer.cursor + 1 = _ from hmoved.cursor]
      congr 1
      omega
    have hclaim : p.ringBuffer.claim.1 = p.ringBuffer.cursor + 1 :=
      (h.claim havailable rfl).1.trans hnext.symm
    have hread : mid.readSlot cb p.ringBuffer.cursor (p.ringBuffer.cursor + 1) = (outcome, p') := by
      have hsteps := take_steps htake
      rw [hclaim] at hsteps
      cases hsteps with
      | back hback => omega
      | refused e _ hpadding' => cases hpadding'.symm.trans hpadding
      | read mid' _ hpadding' hread =>
        obtain ⟨-, rfl⟩ := Prod.mk.inj (Option.some.inj (hpadding'.symm.trans hpadding))
        exact hread
    refine .read mid havailable hkeeps hmoved hpadding (fun added' hmid => ?_) hshape hrest
    obtain ⟨uid', hout', hstored', hring', -⟩ :=
      readSlot_of_claimed hmid hnext (by omega) hfresh havailable hread
    exact ⟨uid', hout', hstored', hring'⟩

theorem shutdown_attached (p : PaddedRing) : p.shutdown.attached = p.attached := by
  simp only [PaddedRing.shutdown]
  split
  · rfl
  · split_ifs <;> rfl

/-- A timer runs a pass or leaves the ring and its executor alone. -/
theorem fire_attached (h : Represents p.ringBuffer uids claimed pending) {timer : ℕ}
    (hfire : p.fire cb fuel timer = some p') : p'.attached = p.attached := by
  simp only [PaddedRing.fire] at hfire
  split at hfire
  · rw [← Option.some.inj hfire]
  · split_ifs at hfire
    · rw [← Option.some.inj hfire]
      rfl
    · split at hfire
      · cases hfire
      · next out mid hpad =>
        obtain ⟨k, added, hborrows, -⟩ := paddingBuffer_cases (p := p.setSchedule _) h hpad
        split at hfire <;> rw [← Option.some.inj hfire] <;> exact hborrows.attached

/-- After `calls` calls of `take` the cursor has moved no more often. -/
structure Claims (bufferSize paddingThreshold : ℤ) (calls : ℕ) (p : PaddedRing) : Prop where
  represents : ∃ uids claimed pending, Represents p.ringBuffer uids claimed pending ∧ claimed ≤ calls
  size : p.ringBuffer.bufferSize = bufferSize
  threshold : p.ringBuffer.paddingThreshold = paddingThreshold
  attached : p.attached = true

variable {bufferSize paddingThreshold : ℤ} {calls : ℕ}

theorem Claims.padding (h : Claims bufferSize paddingThreshold calls p) {out : Except Throwable Unit}
    (hpad : p.paddingBuffer cb fuel = some (out, p')) : Claims bufferSize paddingThreshold calls p' := by
  obtain ⟨⟨uids, claimed, pending, hrep, hle⟩, hsize, hthreshold, hattached⟩ := h
  obtain ⟨k, added, hborrows, -⟩ := paddingBuffer_cases hrep hpad
  exact ⟨⟨_, claimed, pending, hborrows.ring.represents, hle⟩, hborrows.ring.shape.1.trans hsize,
    hborrows.ring.shape.2.trans hthreshold, hborrows.attached.trans hattached⟩

theorem Claims.congr (h : Claims bufferSize paddingThreshold calls p) (hsame : SameQueue p p')
    (hattached : p'.attached = p.attached) : Claims bufferSize paddingThreshold calls p' :=
  ⟨hsame.1 ▸ h.represents, hsame.1 ▸ h.size, hsame.1 ▸ h.threshold, hattached.trans h.attached⟩

theorem Claims.take (h : Claims bufferSize paddingThreshold calls p)
    (hreject : cb.rejectedTakeHandler = exceptionRejectedTakeBuffer)
    (htake : p.take cb fuel = some (outcome, p')) :
    Claims bufferSize paddingThreshold (calls + 1) p' := by
  obtain ⟨⟨uids, claimed, pending, hrep, hle⟩, hsize, hthreshold, hattached⟩ := h
  cases take_reads hrep hreject htake with
  | empty _ _ _ out hpadding =>
    obtain ⟨k, added, hborrows⟩ := triggerPadding_borrows hrep hpadding
    exact ⟨⟨_, claimed, pending, hborrows.ring.represents, by omega⟩,
      hborrows.ring.shape.1.trans hsize, hborrows.ring.shape.2.trans hthreshold,
      hborrows.attached.trans hattached⟩
  | lost _ _ _ _ hring hrest =>
    refine ⟨⟨uids, claimed + 1, _, hring, by omega⟩, ?_, ?_, ?_⟩
    · rw [hrest]
      exact hsize
    · rw [hrest]
      exact hthreshold
    · rw [hrest]
      exact hattached
  | read mid _ _ hmoved hpadding hreads hshape hrest =>
    obtain ⟨k, added, hborrows⟩ := triggerPadding_borrows hmoved hpadding
    obtain ⟨uid, -, -, hring⟩ := hreads added hborrows.ring.represents
    refine ⟨⟨_, claimed + 1, pending, hring, by omega⟩,
      hshape.1.trans (hborrows.ring.shape.1.trans hsize),
      hshape.2.trans (hborrows.ring.shape.2.trans hthreshold), ?_⟩
    rw [hrest]
    exact hborrows.attached.trans hattached

namespace CachedUidGenerator

variable {settings : CachedSettings} {workerId now : ℤ} {g g' g₀ g₁ : CachedUidGenerator}
  {L : Layout} {filled : PaddedRing} {events : List Event}

theorem callOutcomes_snoc (events : List Event) (e : Event) :
    callOutcomes (events ++ [e]) = callOutcomes events ++ e.outcome.toList :=
  filterMap_snoc _ events e

/-- An event changes nothing of a generator but its ring. -/
theorem Claims.step {e : Event} (hp : g.padded = some p)
    (h : Claims bufferSize paddingThreshold calls p)
    (hreject : g.callbacks.rejectedTakeHandler = exceptionRejectedTakeBuffer) (hstep : Step g e g') :
    ∃ p', g' = { g with padded := some p' } ∧
      Claims bufferSize paddingThreshold (calls + e.outcome.toList.length) p' := by
  cases hstep with
  | getUID hget =>
    obtain ⟨out, p', htake, rfl, -⟩ := getUID_take hp hget
    exact ⟨p', rfl, h.take hreject htake⟩
  | @paddingBuffer _ p' fuel outcome made hpad =>
    obtain rfl := Option.some.inj (hp.symm.trans made)
    exact ⟨p', rfl, h.padding hpad⟩
  | @fire _ p' fuel schedule timer made _ _ hfire =>
    obtain rfl := Option.some.inj (hp.symm.trans made)
    obtain ⟨uids, claimed, pending, hrep, -⟩ := h.represents
    have hattached := fire_attached hrep hfire
    refine ⟨p', rfl, ?_⟩
    rcases fire_cases hfire with hsame | ⟨schedule', out, mid, hpad, hsame⟩
    · exact h.congr hsame hattached
    · have hfirst : Claims bufferSize paddingThreshold calls (p.setSchedule schedule') :=
        h.congr ⟨rfl, rfl⟩ rfl
      obtain ⟨k, added, hborrows, -⟩ := paddingBuffer_cases (p := p.setSchedule schedule') hrep hpad
      exact (hfirst.padding hpad).congr hsame (hattached.trans hborrows.attached.symm)
  | destroy hdestroy =>
    unfold destroy at hdestroy
    rw [hp] at hdestroy
    refine ⟨p.shutdown, (Prod.mk.inj hdestroy).2.symm, ?_⟩
    exact h.congr (shutdown_sameQueue p) (shutdown_attached p)

theorem Ready.claims (h : Ready settings workerId now L g filled) :
    ∃ p, g.padded = some p ∧ Claims (numberShiftLeft (2 ^ L.s) settings.boostPower)
      ⌊numberShiftLeft (2 ^ L.s) settings.boostPower * settings.paddingFactor / 100⌋ 0 p := by
  obtain ⟨r, fuel, hnew, hpad⟩ := h.fill
  obtain ⟨p, hstart, hp⟩ := h.start
  obtain ⟨hrep, hsize, -, -, hthreshold, -⟩ := represents_new hnew
  have hfirst : Claims r.bufferSize r.paddingThreshold 0
      ⟨r, .new now settings.scheduleInterval.isSome, true⟩ :=
    ⟨⟨[], 0, ∅, hrep, le_rfl⟩, rfl, rfl, rfl⟩
  have hfilled := hfirst.padding hpad
  refine ⟨p, hp, ?_⟩
  rw [← hthreshold, ← hsize]
  have hattached : p.attached = filled.attached := by
    rcases start_cases hstart with rfl | ⟨schedule, rfl⟩ <;> rfl
  exact hfilled.congr (start_sameQueue hstart) hattached

theorem Claims.run (hp : g₀.padded = some p) (h : Claims bufferSize paddingThreshold 0 p)
    (hreject : g₀.callbacks.rejectedTakeHandler = exceptionRejectedTakeBuffer)
    (hrun : Runs g₀ events g) :
    ∃ p', g = { g₀ with padded := some p' } ∧
      Claims bufferSize paddingThreshold (callOutcomes events).length p' := by
  refine hrun.invariant (fun events g => ∃ p', g = { g₀ with padded := some p' } ∧
    Claims bufferSize paddingThreshold (callOutcomes events).length p') ⟨p, ?_, h⟩ ?_
  · rw [← hp]
  · rintro events s e s' - ⟨p', rfl, hclaims⟩ hstep
    obtain ⟨p'', rfl, hnext⟩ :=
      Claims.step (g := { g₀ with padded := some p' }) rfl hclaims hreject hstep
    rw [callOutcomes_snoc, List.length_append]
    exact ⟨p'', rfl, hnext⟩

end CachedUidGenerator

structure Drains (first : PaddedRing) (uids : List ℤ) (claimed taken : ℕ) (p : PaddedRing) :
    Prop where
  represents : ∃ pending, Represents p.ringBuffer uids (min (claimed + taken) uids.length) pending
  shape : SameShape first.ringBuffer p.ringBuffer
  attached : p.attached = true
  stopped : Stopped p
  lastSecond : p.executor.lastSecond = first.executor.lastSecond

variable {first : PaddedRing} {taken : ℕ}

/-- The UIDs of a stopped ring that are returned: those above the threshold. -/
def drained (paddingThreshold : ℤ) (unread : List ℤ) (i : ℕ) : Option ℤ :=
  if i + paddingThreshold < unread.length then unread[i]? else none

/-- A stopped executor refuses the take that would have asked for a pass. -/
theorem loses_iff_of_stopped (h : Represents p.ringBuffer uids claimed pending)
    (havailable : claimed < uids.length) (hbound : uids.length ≤ 2 ^ 63) (hattached : p.attached = true)
    (hstopped : Stopped p) :
    Loses p ↔ (uids.length : ℤ) ≤ claimed + p.ringBuffer.paddingThreshold := by
  have hcursor : p.ringBuffer.cursor = claimed - 1 := by
    rw [h.cursor, toLong_eq_self ⟨by omega, by omega⟩]
  have htail : p.ringBuffer.tail = uids.length - 1 := by
    rw [h.tail, toLong_eq_self ⟨by omega, by omega⟩]
  unfold Loses
  rw [hcursor, htail, hattached, hstopped.pool]
  simp only [true_and]
  omega

theorem Drains.take (h : Drains first uids claimed taken p) (hclaimed : claimed ≤ uids.length)
    (hbound : uids.length ≤ 2 ^ 63) (hreject : cb.rejectedTakeHandler = exceptionRejectedTakeBuffer)
    (htake : p.take cb fuel = some (outcome, p')) :
    outcome.toOption = drained first.ringBuffer.paddingThreshold (uids.drop claimed) taken ∧
      Drains first uids claimed (taken + 1) p' := by
  obtain ⟨⟨pending, hrep⟩, hshape, hattached, hstopped, hlast⟩ := h
  have hlen : (uids.drop claimed).length = uids.length - claimed := List.length_drop
  have hthreshold := hshape.2
  cases take_reads hrep hreject htake with
  | empty e hout hempty out hpadding =>
    have hsame : p' = p := by
      rcases triggerPadding_cases hpadding with ⟨-, -, hsame⟩ | ⟨-, -, -, hsame⟩ | ⟨-, hlive, -⟩
      · exact hsame
      · exact hsame
      · rw [hstopped.pool] at hlive
        cases hlive
    have hend : (uids.drop claimed)[taken]? = none := List.getElem?_eq_none (by omega)
    have hmin : min (claimed + (taken + 1)) uids.length = min (claimed + taken) uids.length := by omega
    refine ⟨?_, ⟨⟨pending, by rw [hmin, hsame]; exact hrep⟩, by rw [hsame]; exact hshape,
      by rw [hsame]; exact hattached, by rw [hsame]; exact hstopped, by rw [hsame]; exact hlast⟩⟩
    rw [hout, drained, hend, ite_self]
    rfl
  | lost e hout havailable hloses hring hrest =>
    have hlost := (loses_iff_of_stopped hrep havailable hbound hattached hstopped).1 hloses
    have hmin : min (claimed + (taken + 1)) uids.length = min (claimed + taken) uids.length + 1 := by
      omega
    refine ⟨?_, ⟨⟨_, hmin ▸ hring⟩, ?_, ?_, ?_, ?_⟩⟩
    · rw [hout, drained, if_neg (by omega)]
      rfl
    · rw [hrest]
      exact hshape
    · rw [hrest]
      exact hattached
    · rw [hrest]
      exact ⟨hstopped.pool, hstopped.schedule⟩
    · rw [hrest]
      exact hlast
  | read mid havailable hkeeps hmoved hpadding hreads hshape' hrest =>
    have hkept := (loses_iff_of_stopped hrep havailable hbound hattached hstopped).not.1 hkeeps
    have hmid : mid = moveCursor p (p.ringBuffer.cursor + 1) := by
      rcases triggerPadding_cases hpadding with ⟨-, -, hsame⟩ | ⟨-, -, herr, -⟩ | ⟨-, hlive, -⟩
      · exact hsame
      · cases herr
      · rw [moveCursor_executor, hstopped.pool] at hlive
        cases hlive
    subst hmid
    obtain ⟨uid, hout, hstored, hring⟩ := hreads [] (by simpa using hmoved)
    rw [List.map_nil, List.append_nil] at hring
    have hmin : min (claimed + (taken + 1)) uids.length = min (claimed + taken) uids.length + 1 := by
      omega
    refine ⟨?_, ⟨⟨pending, hmin ▸ hring⟩, ?_, ?_, ?_, ?_⟩⟩
    · have hget : uids[claimed + taken]? = some uid := by
        rw [← hstored]
        congr 1
        omega
      rw [hout, drained, if_pos (by omega), List.getElem?_drop, hget]
      rfl
    · exact ⟨hshape'.1.trans hshape.1, hshape'.2.trans hshape.2⟩
    · rw [hrest]
      exact hattached
    · rw [hrest]
      exact ⟨hstopped.pool, hstopped.schedule⟩
    · rw [hrest]
      exact hlast

theorem Drains.congr (h : Drains first uids claimed taken p) (hsame : SameQueue p p')
    (hattached : p'.attached = p.attached) (hstopped : Stopped p') :
    Drains first uids claimed taken p' :=
  ⟨hsame.1 ▸ h.represents, hsame.1 ▸ h.shape, hattached.trans h.attached, hstopped,
    hsame.2.trans h.lastSecond⟩

/-- A timer of a stopped schedule fires for nothing. -/
theorem fire_of_stopped (hstopped : Stopped p) {timer : ℕ} (hfire : p.fire cb fuel timer = some p') :
    SameQueue p p' ∧ p'.attached = p.attached ∧ Stopped p' := by
  simp only [PaddedRing.fire] at hfire
  split at hfire
  · rw [← Option.some.inj hfire]
    exact ⟨⟨rfl, rfl⟩, rfl, hstopped⟩
  · next schedule hschedule =>
    have hshut := hstopped.schedule schedule hschedule
    rw [if_pos hshut] at hfire
    rw [← Option.some.inj hfire]
    exact ⟨⟨rfl, rfl⟩, rfl, hstopped.setSchedule hshut⟩

namespace CachedUidGenerator

variable {settings : CachedSettings} {workerId now : ℤ} {g g' g₀ g₁ g₂ : CachedUidGenerator}
  {before after : List Event}

/-- The calls return what is left, in its order, and then throw. -/
theorem Drains.step {e : Event} (hp : g.padded = some p) (h : Drains first uids claimed taken p)
    (hclaimed : claimed ≤ uids.length) (hbound : uids.length ≤ 2 ^ 63)
    (hreject : g.callbacks.rejectedTakeHandler = exceptionRejectedTakeBuffer)
    (hdirect : ∀ out, e ≠ .paddingBuffer out) (hstep : Step g e g') :
    ∃ p', g' = { g with padded := some p' } ∧
      Drains first uids claimed (taken + e.outcome.toList.length) p' ∧
        e.outcome.toList.map Except.toOption = (List.range e.outcome.toList.length).map fun i =>
          drained first.ringBuffer.paddingThreshold (uids.drop claimed) (taken + i) := by
  cases hstep with
  | getUID hget =>
    obtain ⟨out, p', htake, rfl, hout⟩ := getUID_take hp hget
    obtain ⟨hdrained, hnext⟩ := h.take hclaimed hbound hreject htake
    exact ⟨p', rfl, hnext, by simp [Event.outcome, hout, hdrained]⟩
  | paddingBuffer made hpad => exact absurd rfl (hdirect _)
  | @fire p₁ p' fuel schedule timer made _ _ hfire =>
    obtain rfl := Option.some.inj (hp.symm.trans made)
    obtain ⟨hsame, hattached, hstopped⟩ := fire_of_stopped h.stopped hfire
    exact ⟨p', rfl, h.congr hsame hattached hstopped, rfl⟩
  | destroy hdestroy =>
    unfold destroy at hdestroy
    rw [hp] at hdestroy
    exact ⟨p.shutdown, (Prod.mk.inj hdestroy).2.symm,
      h.congr (shutdown_sameQueue p) (shutdown_attached p) (stopped_shutdown p), rfl⟩

theorem Drains.run (hp : g₁.padded = some p) (h : Drains first uids claimed 0 p)
    (hclaimed : claimed ≤ uids.length) (hbound : uids.length ≤ 2 ^ 63)
    (hreject : g₁.callbacks.rejectedTakeHandler = exceptionRejectedTakeBuffer)
    (hdirect : ∀ out, .paddingBuffer out ∉ after) (hrun : Runs g₁ after g₂) :
    ∃ p', g₂ = { g₁ with padded := some p' } ∧
      Drains first uids claimed (callOutcomes after).length p' ∧
        (callOutcomes after).map Except.toOption =
          (List.range (callOutcomes after).length).map
            (drained first.ringBuffer.paddingThreshold (uids.drop claimed)) := by
  induction after using List.reverseRecOn generalizing g₂ with
  | nil =>
    obtain rfl := run_nil.1 hrun
    exact ⟨p, by rw [← hp], h, rfl⟩
  | append_singleton after e ih =>
    obtain ⟨s, hpre, hstep⟩ := run_snoc.1 hrun
    obtain ⟨p', rfl, hdrains, houtcomes⟩ :=
      ih (fun out hmem => hdirect out (List.mem_append_left _ hmem)) hpre
    obtain ⟨p'', rfl, hnext, hout⟩ := Drains.step (g := { g₁ with padded := some p' }) rfl hdrains
      hclaimed hbound hreject (fun out he => hdirect out (by simp [he])) hstep
    refine ⟨p'', rfl, ?_, ?_⟩
    · rw [callOutcomes_snoc, List.length_append]
      exact hnext
    · rw [callOutcomes_snoc, List.map_append, List.length_append, List.range_add, List.map_append,
        houtcomes, hout, List.map_map]
      rfl

/-- After `destroy`, without direct passes, the calls return the unread UIDs above the
threshold in their order; all later calls throw, and no second is borrowed any more. -/
theorem drains_after_destroy {outcome : Except Throwable Unit}
    (htake : settings.rejectedTakeBufferHandler = none)
    (hinit : (configured settings).afterPropertiesSet (.ok workerId) now fuel = some (.ok (), g₀))
    (hbefore : Runs g₀ before g) (hdestroy : Step g (.destroy outcome) g₁)
    (hdirect : ∀ out, .paddingBuffer out ∉ after) (hafter : Runs g₁ after g₂)
    (hbound : ∀ p ∈ g.padded, (callOutcomes before).length + p.ringBuffer.bufferSize ≤ 2 ^ 63) :
    ∃ p p₂, g.padded = some p ∧ g₂.padded = some p₂ ∧
      (callOutcomes after).map Except.toOption =
        (List.range (callOutcomes after).length).map
          (drained p.ringBuffer.paddingThreshold p.ringBuffer.unreadUids) ∧
      p₂.executor.lastSecond = p.executor.lastSecond := by
  obtain ⟨L, filled, hready⟩ := ready_of_init hinit
  obtain ⟨p₀, hp₀, hclaims⟩ := hready.claims
  have hreject : g₀.callbacks.rejectedTakeHandler = exceptionRejectedTakeBuffer := by
    rw [callbacks, hready.rejectedTake, htake]
    rfl
  obtain ⟨p, rfl, hclaimed⟩ := Claims.run hp₀ hclaims hreject hbefore
  obtain ⟨uids, claimed, pending, hrep, hle⟩ := hclaimed.represents
  obtain rfl : g₁ = { g₀ with padded := some p.shutdown } := by
    cases hdestroy with
    | destroy hdestroy => exact (Prod.mk.inj hdestroy).2.symm
  have hlen := hrep.length_le
  have hcount := hbound p rfl
  obtain ⟨hring, hlast⟩ := shutdown_sameQueue p
  have hmin : min (claimed + 0) uids.length = claimed := by
    have := hrep.claimed_le
    omega
  have hdrains : Drains p uids claimed 0 p.shutdown :=
    ⟨⟨pending, by rw [hmin, hring]; exact hrep⟩, by rw [hring]; exact ⟨rfl, rfl⟩,
      (shutdown_attached p).trans hclaimed.attached, stopped_shutdown p, hlast⟩
  have hpadded : ({ g₀ with padded := some p.shutdown } : CachedUidGenerator).padded =
      some p.shutdown := rfl
  obtain ⟨p₂, rfl, hend, houtcomes⟩ :=
    Drains.run hpadded hdrains hrep.claimed_le (by omega) hreject hdirect hafter
  exact ⟨p, p₂, rfl, rfl, hrep.unreadUids_eq ▸ houtcomes, hend.lastSecond⟩

/-- Of four UIDs two are returned before the others are left below the threshold. -/
theorem drains_after_destroy_four_slots :
    ∃ (g₀ g₁ g₂ : CachedUidGenerator) (outcomes : List (Except Throwable ℤ)),
      (configured fourSlots).afterPropertiesSet (.ok 1) 0 3 = some (.ok (), g₀) ∧
      Step g₀ (.destroy (.ok ())) g₁ ∧ Runs g₁ (outcomes.map .getUID) g₂ ∧
      outcomes.map Except.toOption = [some 10, some 11, none] := by
  let g := initialized fourSlots
  let next (g : CachedUidGenerator) := ((g.getUID 0).map Prod.snd).getD g
  let g₁ := g.destroy.2
  have hdestroy : Step g (.destroy (.ok ())) g₁ := .destroy (Prod.ext (by decide +kernel) rfl)
  have hcall (s : CachedUidGenerator) (uid : ℤ) (h : (s.getUID 0).map Prod.fst = some (.ok uid)) :
      Step s (.getUID (.ok uid)) (next s) := .getUID (eq_some_of_map_fst s h)
  have hthird : ((next (next g₁)).getUID 0).isSome = true := by decide +kernel
  obtain ⟨⟨out, last⟩, hget⟩ := Option.isSome_iff_exists.1 hthird
  let outcomes : List (Except Throwable ℤ) := [.ok 10, .ok 11, out]
  have hrun : Runs g₁ (outcomes.map .getUID) last :=
    .cons (hcall g₁ 10 (by decide +kernel)) (.cons (hcall (next g₁) 11 (by decide +kernel))
      (.cons (.getUID hget) .nil))
  have hring : g.padded.map (fun p => (p.ringBuffer.bufferSize, p.ringBuffer.paddingThreshold,
      p.ringBuffer.unreadUids)) = some (4, 2, [10, 11, 18, 19]) := by decide +kernel
  obtain ⟨p, p₂, hp, -, houtcomes, -⟩ := drains_after_destroy rfl init_fourSlots .nil hdestroy
    (by simp [outcomes]) hrun fun p hp => by
      rw [Option.mem_def.1 hp, Option.map_some, Option.some.injEq, Prod.mk.injEq] at hring
      rw [hring.1]
      decide
  rw [hp, Option.map_some, Option.some.injEq, Prod.mk.injEq, Prod.mk.injEq] at hring
  refine ⟨g, g₁, last, outcomes, init_fourSlots, hdestroy, hrun, ?_⟩
  rw [hring.2.1, hring.2.2] at houtcomes
  exact houtcomes

end CachedUidGenerator

end UID
