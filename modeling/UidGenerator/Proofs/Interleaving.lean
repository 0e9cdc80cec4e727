import UidGenerator.Proofs.RingBuffer

/-! Puts and the two steps of takes in any order, from a new ring. The takes
between their steps are the pending reads of the queue. -/

namespace UID

open RingQueue Transition RingBuffer

variable {events : List RingEvent} {s s' : RingTakes} {pending : Finset ℕ} {bufferSize : ℤ}
  {accepted claimed finished : List ℤ} {e : RingEvent}

/-- What every interleaving keeps, as long as no sequence wraps. -/
structure Interleaved (bufferSize : ℤ) (accepted claimed finished : List ℤ) (s : RingTakes)
    (pending : Finset ℕ) : Prop where
  represents : Represents s.ring (accepted.map toLong) claimed.length pending
  size : s.ring.bufferSize = bufferSize
  inOrder : claimed = (List.range claimed.length).map (↑)
  claimed_nodup : s.claimed.Nodup
  mem_claimed : ∀ c, c ∈ s.claimed ↔ ∃ p ∈ pending, (p : ℤ) = c
  finished_nodup : finished.Nodup
  mem_finished : ∀ c ∈ finished, ∃ p < claimed.length, p ∉ pending ∧ (p : ℤ) = c
  count : pending.card + finished.length = claimed.length

/-- The take that finishes at `c` returns accepted put number `c`. -/
def FinishesInOrder (accepted : List ℤ) (e : RingEvent) : Prop :=
  ∀ (c : ℤ) (outcome : Except Throwable ℤ), e = .finish c outcome →
    ∃ (p : ℕ) (uid : ℤ), c = p ∧ accepted[p]? = some uid ∧ outcome = .ok (toLong uid)

theorem Interleaved.claim {r r' : RingBuffer} {cs : List ℤ} {nextCursor : ℤ}
    (h : Interleaved bufferSize accepted claimed finished ⟨r, cs⟩ pending)
    (hlen : accepted.length < 2 ^ 63) (hclaim : r.claim = (nextCursor, r'))
    (hforward : r.cursor < nextCursor) :
    Interleaved bufferSize accepted (claimed ++ [nextCursor]) finished ⟨r', nextCursor :: cs⟩
      (insert claimed.length pending) := by
  obtain ⟨hrep, hsize, horder, hnodup, hmem, hfnodup, hfmem, hcount⟩ := h
  have hle := hrep.claimed_le
  rw [List.length_map] at hle
  have hlt : claimed.length < accepted.length := by
    apply lt_of_le_of_ne hle
    intro heq
    rw [hrep.claim_of_eq (by simpa using heq)] at hclaim
    exact hforward.ne (Prod.mk.inj hclaim).1
  obtain ⟨hnext, hrep', hshape, -, -⟩ := hrep.claim (by simpa using hlt) hclaim
  rw [toLong_eq_self ⟨by omega, by omega⟩] at hnext
  subst hnext
  have hnew : claimed.length ∉ pending := fun hp => lt_irrefl _ (hrep.pending_lt _ hp)
  refine ⟨by simpa using hrep', hshape.1.trans hsize, ?_, ?_, ?_, hfnodup, ?_, ?_⟩
  · rw [List.length_append, List.length_singleton, List.range_succ, List.map_append,
      ← horder]
    rfl
  · rw [List.nodup_cons, hmem]
    exact ⟨by rintro ⟨p, hp, heq⟩; exact hnew (by rwa [← Int.ofNat_inj.1 heq]), hnodup⟩
  · intro c
    rw [List.mem_cons, hmem]
    simp only [Finset.mem_insert, exists_eq_or_imp]
    rw [eq_comm]
  · intro c hc
    obtain ⟨p, hp, hpend, rfl⟩ := hfmem c hc
    refine ⟨p, by simp; omega, ?_, rfl⟩
    rw [Finset.mem_insert]
    rintro (rfl | hp')
    · exact lt_irrefl _ hp
    · exact hpend hp'
  · rw [Finset.card_insert_of_notMem hnew, List.length_append, List.length_singleton]
    omega

/-- A cursor that does not move forward has found the ring empty. -/
theorem Interleaved.stuck {r r' : RingBuffer} {cs : List ℤ} {nextCursor : ℤ}
    (h : Interleaved bufferSize accepted claimed finished ⟨r, cs⟩ pending)
    (hlen : accepted.length < 2 ^ 63) (hclaim : r.claim = (nextCursor, r'))
    (hback : nextCursor ≤ r.cursor) :
    Interleaved bufferSize accepted claimed finished ⟨r', cs⟩ pending := by
  have hrep := h.represents
  have hle := hrep.claimed_le
  rw [List.length_map] at hle
  rcases hle.eq_or_lt with heq | hlt
  · rw [hrep.claim_of_eq (by simpa using heq)] at hclaim
    rwa [← (Prod.mk.inj hclaim).2]
  · obtain ⟨hnext, -⟩ := hrep.claim (by simpa using hlt) hclaim
    have hcursor := hrep.cursor
    rw [toLong_eq_self ⟨by omega, by omega⟩] at hnext hcursor
    simp only at hcursor
    omega

theorem Interleaved.finish {r r' : RingBuffer} {cs : List ℤ} {c : ℤ}
    {outcome : Except Throwable ℤ}
    (h : Interleaved bufferSize accepted claimed finished ⟨r, cs⟩ pending)
    (hlen : accepted.length < 2 ^ 63) (hown : c ∈ cs) (hfinish : r.finish c = (outcome, r')) :
    ∃ p : ℕ, c = p ∧ (∃ uid, accepted[p]? = some uid ∧ outcome = .ok (toLong uid)) ∧
      Interleaved bufferSize accepted claimed (finished ++ [c]) ⟨r', cs.erase c⟩
        (pending.erase p) := by
  obtain ⟨hrep, hsize, horder, hnodup, hmem, hfnodup, hfmem, hcount⟩ := h
  obtain ⟨p, hp, rfl⟩ := (hmem c).1 hown
  have hlt := hrep.pending_lt p hp
  have hle := hrep.claimed_le
  rw [List.length_map] at hle
  have hlong : toLong p = p := toLong_eq_self ⟨by omega, by omega⟩
  obtain ⟨uid, r'', huid, hfinish', hrep', hshape, -, -⟩ := hrep.finish hp
  rw [hlong, hfinish] at hfinish'
  obtain ⟨rfl, rfl⟩ := Prod.mk.inj hfinish'
  rw [List.getElem?_map, Option.map_eq_some_iff] at huid
  obtain ⟨uid, huid, rfl⟩ := huid
  refine ⟨p, rfl, ⟨uid, huid, rfl⟩, hrep', hshape.1.trans hsize, horder, hnodup.erase _, ?_, ?_,
    ?_, ?_⟩
  · intro c
    rw [hnodup.mem_erase_iff, hmem]
    constructor
    · rintro ⟨hne, q, hq, rfl⟩
      exact ⟨q, Finset.mem_erase.2 ⟨fun heq => hne (by rw [heq]), hq⟩, rfl⟩
    · rintro ⟨q, hq, rfl⟩
      obtain ⟨hne, hq⟩ := Finset.mem_erase.1 hq
      exact ⟨fun heq => hne (Int.ofNat_inj.1 heq), q, hq, rfl⟩
  · refine List.nodup_append.2 ⟨hfnodup, List.nodup_singleton _, ?_⟩
    intro c hc d hd heq
    rw [List.mem_singleton.1 hd] at heq
    obtain ⟨q, -, hq, rfl⟩ := hfmem c hc
    exact hq (by rwa [Int.ofNat_inj.1 heq])
  · intro c hc
    rcases List.mem_append.1 hc with hc | hc
    · obtain ⟨q, hq, hpend, rfl⟩ := hfmem c hc
      exact ⟨q, hq, fun hq' => hpend (Finset.mem_of_mem_erase hq'), rfl⟩
    · exact ⟨p, hlt, Finset.notMem_erase p pending, (List.mem_singleton.1 hc).symm⟩
  · have hpos := Finset.card_pos.2 ⟨p, hp⟩
    rw [Finset.card_erase_of_mem hp, List.length_append, List.length_singleton]
    omega

/-- The pending reads grow with a claim and shrink with a finish. -/
theorem Interleaved.step (h : Interleaved bufferSize accepted claimed finished s pending)
    (hstep : RingStep s e s') (hlen : accepted.length < 2 ^ 63) :
    FinishesInOrder accepted e ∧ ∃ pending', Interleaved bufferSize
      (accepted ++ e.acceptedUid.toList) (claimed ++ e.claimedCursor.toList)
      (finished ++ e.finishedCursor.toList) s' pending' := by
  cases hstep with
  | accepted hput =>
    obtain ⟨hrep, hshape, -⟩ := h.represents.put hput
    refine ⟨by simp [FinishesInOrder], pending, ?_⟩
    simp only [RingEvent.acceptedUid, RingEvent.claimedCursor, RingEvent.finishedCursor,
      Option.toList, List.append_nil]
    exact { h with represents := by simpa using hrep, size := hshape.1.trans h.size }
  | rejected hput =>
    refine ⟨by simp [FinishesInOrder], pending, ?_⟩
    simpa only [RingEvent.acceptedUid, RingEvent.claimedCursor, RingEvent.finishedCursor,
      Option.toList, List.append_nil] using h
  | claim hclaim hforward =>
    refine ⟨by simp [FinishesInOrder], insert claimed.length pending, ?_⟩
    simpa only [RingEvent.acceptedUid, RingEvent.claimedCursor, RingEvent.finishedCursor,
      Option.toList, List.append_nil] using h.claim hlen hclaim hforward
  | stuck hclaim hback =>
    refine ⟨by simp [FinishesInOrder], pending, ?_⟩
    simpa only [RingEvent.acceptedUid, RingEvent.claimedCursor, RingEvent.finishedCursor,
      Option.toList, List.append_nil] using h.stuck hlen hclaim hback
  | finish hown hfinish =>
    obtain ⟨p, rfl, ⟨uid, huid, rfl⟩, h'⟩ := h.finish hlen hown hfinish
    refine ⟨?_, pending.erase p, ?_⟩
    · rintro c outcome heq
      obtain ⟨rfl, rfl⟩ := RingEvent.finish.inj heq
      exact ⟨p, uid, rfl, huid, rfl⟩
    · simpa only [RingEvent.acceptedUid, RingEvent.claimedCursor, RingEvent.finishedCursor,
        Option.toList, List.append_nil] using h'

theorem acceptedUids_snoc (events : List RingEvent) (e : RingEvent) :
    acceptedUids (events ++ [e]) = acceptedUids events ++ e.acceptedUid.toList :=
  filterMap_snoc _ _ _

theorem claims_snoc (events : List RingEvent) (e : RingEvent) :
    claims (events ++ [e]) = claims events ++ e.claimedCursor.toList :=
  filterMap_snoc _ _ _

theorem finishes_snoc (events : List RingEvent) (e : RingEvent) :
    finishes (events ++ [e]) = finishes events ++ e.finishedCursor.toList :=
  filterMap_snoc _ _ _

theorem interleaved_run {paddingFactor : ℚ} {r : RingBuffer}
    (hnew : RingBuffer.new bufferSize paddingFactor = .ok r) (hrun : Run RingStep ⟨r, []⟩ events s)
    (hlen : (acceptedUids events).length < 2 ^ 63) :
    (∀ e ∈ events, FinishesInOrder (acceptedUids events) e) ∧ ∃ pending, Interleaved bufferSize
      (acceptedUids events) (claims events) (finishes events) s pending := by
  induction hrun with
  | nil =>
    obtain ⟨hrep, hsize, -⟩ := represents_new hnew
    exact ⟨by simp, ∅, hrep, hsize, rfl, List.nodup_nil, by simp, List.nodup_nil, by simp [finishes],
      by simp [finishes, claims]⟩
  | @snoc events s s' e _ hstep ih =>
    rw [acceptedUids_snoc, List.length_append] at hlen
    obtain ⟨hold, pending, h⟩ := ih (by omega)
    obtain ⟨hnew, hnext⟩ := h.step hstep (by omega)
    rw [acceptedUids_snoc, claims_snoc, finishes_snoc]
    refine ⟨?_, hnext⟩
    intro d hd c outcome hdc
    have hfinish : FinishesInOrder (acceptedUids events) d := by
      rcases List.mem_append.1 hd with hd | hd
      · exact hold d hd
      · rwa [List.mem_singleton.1 hd]
    obtain ⟨p, uid, hp, huid, hout⟩ := hfinish c outcome hdc
    refine ⟨p, uid, hp, ?_, hout⟩
    rw [List.getElem?_append_left (List.getElem?_eq_some_iff.1 huid).1, huid]

/-- Every take returns the UID whose accepted put has its cursor's number, once;
takes are in the order of puts, and the unread UIDs never exceed the slots. -/
theorem takes_return_claimed_puts {paddingFactor : ℚ} {r : RingBuffer}
    (hnew : RingBuffer.new bufferSize paddingFactor = .ok r) (hrun : Run RingStep ⟨r, []⟩ events s)
    (hputs : (acceptedUids events).length < 2 ^ 63) :
    (∀ (c : ℤ) (outcome : Except Throwable ℤ), .finish c outcome ∈ events → ∃ (p : ℕ) (uid : ℤ),
        c = p ∧ (acceptedUids events)[p]? = some uid ∧ outcome = .ok (toLong uid) ∧
          (IsLong uid → outcome = .ok uid)) ∧
      (finishes events).Nodup ∧
      claims events = (List.range (claims events).length).map (↑) ∧
      ((acceptedUids events).length : ℤ) - (finishes events).length ≤ bufferSize := by
  obtain ⟨hfinish, pending, h⟩ := interleaved_run hnew hrun hputs
  refine ⟨?_, h.finished_nodup, h.inOrder, ?_⟩
  · intro c outcome hmem
    obtain ⟨p, uid, hp, huid, hout⟩ := hfinish _ hmem c outcome rfl
    exact ⟨p, uid, hp, huid, hout, fun hlong => by rw [hout, toLong_eq_self hlong]⟩
  · have hcard := h.represents.card_unread_le
    have hle := h.represents.claimed_le
    have hcount := h.count
    rw [h.size] at hcard
    rw [List.length_map] at hcard hle
    omega

theorem takes_return_claimed_puts_two_slots :
    ∃ (events : List RingEvent) (s : RingTakes), Run RingStep ⟨twoSlots, []⟩ events s ∧
      claims events = [0, 1] ∧ (finishes events).Nodup ∧ acceptedUids events = [7, 8, 9] := by
  let events : List RingEvent := [.put 7 true, .put 8 true, .claim (some 0), .put 9 false,
    .finish 0 (.ok 7), .claim (some 1), .put 9 true, .finish 1 (.ok 8)]
  have hrun : Run RingStep ⟨twoSlots, []⟩ events _ :=
    .cons (.accepted rfl) (.cons (.accepted rfl) (.cons (.claim rfl (by decide)) (.cons
      (.rejected rfl) (.cons (.finish (by decide) rfl) (.cons (.claim rfl (by decide)) (.cons
        (.accepted rfl) (.cons (.finish (by decide) rfl) .nil)))))))
  have htakes := takes_return_claimed_puts new_two_fifty hrun (by decide)
  exact ⟨events, _, hrun, rfl, htakes.2.1, rfl⟩

end UID
