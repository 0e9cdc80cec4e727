import UidGenerator.Proofs.Drain
import UidGenerator.Proofs.InTime

/-! A `CachedUidGenerator` that is not destroyed, as what it is for: the UIDs of the seconds
to come are laid ahead, and handed out in their order. Every run of the generator is a run of
this model. -/

namespace UID

open RingQueue RingBuffer Transition

variable {cb : Callbacks} {r r' : RingBuffer} {p p' : PaddedRing} {uids : List ℤ}
  {claimed fuel k m n : ℕ} {pending : Finset ℕ} {outcome : Except Throwable ℤ}

/-- The provider has `m` 64-bit UIDs for every second. -/
def ProvidesEach (cb : Callbacks) (m : ℕ) : Prop :=
  ∀ second, ∃ uidList, cb.uidProvider second = .ok uidList ∧ uidList.length = m ∧
    ∀ uid ∈ uidList, IsLong uid

theorem ProvidesEach.provided (h : ProvidesEach cb m) (second : ℤ) :
    (provided cb second).length = m ∧ ∀ uid ∈ provided cb second, IsLong uid := by
  obtain ⟨uidList, hprov, hlen, hlong⟩ := h second
  rw [provided_of_ok hprov]
  exact ⟨hlen, hlong⟩

/-- All UIDs of `k` seconds after `lastSecond`, and the first `n` of one second more. -/
def passUids (cb : Callbacks) (lastSecond : ℤ) (k n : ℕ) : List ℤ :=
  borrowed cb lastSecond k ++ (provided cb (toLong (lastSecond + (1 + k)))).take n

theorem passUids_zero (cb : Callbacks) (lastSecond : ℤ) (n : ℕ) :
    passUids cb lastSecond 0 n = (provided cb (toLong (lastSecond + 1))).take n := by
  rw [passUids, Nat.cast_zero, add_zero]
  rfl

theorem passUids_succ (cb : Callbacks) (lastSecond : ℤ) (k n : ℕ) :
    passUids cb lastSecond (k + 1) n =
      provided cb (toLong (lastSecond + 1)) ++ passUids cb (lastSecond + 1) k n := by
  rw [passUids, add_comm k 1, borrowed_add, borrowed_one, List.append_assoc, passUids]
  push_cast
  rw [add_assoc]

theorem passUids_congr (cb : Callbacks) {a b : ℤ} (h : toLong a = toLong b) (k n : ℕ) :
    passUids cb a k n = passUids cb b k n := by
  rw [passUids, passUids, borrowed_congr cb h, ← toLong_add_toLong, h, toLong_add_toLong]

theorem length_borrowed (h : ProvidesEach cb m) (lastSecond : ℤ) (k : ℕ) :
    (borrowed cb lastSecond k).length = m * k := by
  induction k with
  | zero => rfl
  | succ k ih =>
    rw [borrowed_add, borrowed_one, List.length_append, ih, (h.provided _).1, Nat.mul_succ]

theorem length_passUids (h : ProvidesEach cb m) (lastSecond : ℤ) (k : ℕ) (hn : n < m) :
    (passUids cb lastSecond k n).length = m * k + n := by
  rw [passUids, List.length_append, length_borrowed h, List.length_take, (h.provided _).1,
    min_eq_left hn.le]

theorem map_toLong_passUids (h : ProvidesEach cb m) (lastSecond : ℤ) (k n : ℕ) :
    (passUids cb lastSecond k n).map toLong = passUids cb lastSecond k n := by
  have hself : ∀ uid ∈ passUids cb lastSecond k n, toLong uid = uid := by
    intro uid huid
    rcases List.mem_append.1 huid with huid | huid
    · obtain ⟨i, -, hi⟩ := List.mem_flatMap.1 huid
      exact toLong_eq_self ((h.provided _).2 uid hi)
    · exact toLong_eq_self ((h.provided _).2 uid (List.mem_of_mem_take huid))
  rw [List.map_congr_left hself, List.map_id']

/-- The UIDs of a second are put until the ring is full, or all of them. -/
theorem putAll_prefix (h : Represents r uids claimed pending) {uidList : List ℤ}
    {out : Except Throwable Bool} (hputs : putAll cb r uidList = (out, r')) :
    ∃ n, Extends r uids claimed pending (uidList.take n) r' ∧
      (out = .ok false ∧ uidList.take n = uidList ∨
        out ≠ .ok false ∧ n < uidList.length ∧ IsFull r') := by
  induction uidList generalizing r uids with
  | nil =>
    obtain ⟨rfl, rfl⟩ := Prod.mk.inj hputs
    exact ⟨0, extends_refl h, Or.inl ⟨rfl, rfl⟩⟩
  | cons uid uidList ih =>
    rcases putAll_steps hputs with ⟨r₁, htry, hrest⟩ | ⟨htry, rfl, rfl⟩
    · obtain ⟨hrep, hshape, hcursor⟩ := h.put htry
      have hfirst : Extends r uids claimed pending [uid] r₁ := ⟨by simpa using hrep, hshape, hcursor⟩
      obtain ⟨n, hmore, hend⟩ := ih hfirst.represents hrest
      refine ⟨n + 1, hfirst.trans hmore, ?_⟩
      rcases hend with ⟨hout, hall⟩ | ⟨hout, hlt, hfull⟩
      · exact Or.inl ⟨hout, by rw [List.take_succ_cons, hall]⟩
      · exact Or.inr ⟨hout, Nat.succ_lt_succ hlt, hfull⟩
    · refine ⟨0, extends_refl h, Or.inr ⟨?_, Nat.succ_pos _, uid, htry⟩⟩
      cases cb.rejectedPutHandler r' uid <;> simp [Except.map]

theorem paddingLoop_prefix (hm : ProvidesEach cb m)
    (h : Represents p.ringBuffer uids claimed pending) {out : Except Throwable Unit}
    (hloop : p.paddingLoop cb fuel = some (out, p')) :
    ∃ k n, n < m ∧ Borrows cb p uids claimed pending (k + 1)
      (passUids cb p.executor.lastSecond k n) p' ∧ IsFull p'.ringBuffer := by
  induction fuel generalizing p uids with
  | zero => cases hloop
  | succ fuel ih =>
    obtain ⟨uidList', hprov', hlen, -⟩ := hm p.nextSecond.executor.lastSecond
    cases paddingLoop_steps hloop with
    | threw e hprov => cases hprov'.symm.trans hprov
    | stopped uidList full r hprov hputs hstop hout hrest =>
      obtain rfl := Except.ok.inj (hprov'.symm.trans hprov)
      have hsecond : provided cb (toLong (p.executor.lastSecond + 1)) = uidList' :=
        provided_of_ok hprov
      obtain ⟨n, hext, ⟨hmore, -⟩ | ⟨-, hlt, hfull⟩⟩ := putAll_prefix h hputs
      · exact absurd hmore hstop
      · subst hrest
        refine ⟨0, n, hlen ▸ hlt, ?_, hfull⟩
        rw [passUids_zero, hsecond]
        exact borrows_one hext (provided_of_ok hprov ▸ List.take_sublist n _)
    | more uidList r hprov hputs hloop =>
      obtain rfl := Except.ok.inj (hprov'.symm.trans hprov)
      obtain ⟨n, hext, ⟨-, hall⟩ | ⟨hstop, -⟩⟩ := putAll_prefix h hputs
      · have hsecond : provided cb (toLong (p.executor.lastSecond + 1)) = uidList' :=
          provided_of_ok hprov
        rw [hall] at hext
        have hround := borrows_one hext (by rw [provided_of_ok hprov])
        obtain ⟨k, n, hn, hrest, hfull⟩ := ih hext.represents hloop
        have hlater : passUids cb (p.executor.lastSecond + 1) k n =
            passUids cb p.nextSecond.executor.lastSecond k n :=
          passUids_congr cb (toLong_toLong _).symm k n
        refine ⟨k + 1, n, hn, ?_, hfull⟩
        rw [passUids_succ, hsecond, hlater, add_comm (k + 1) 1]
        refine hround.trans hrest fun hsome => ?_
        exact List.length_pos_iff.2 (hsome _ _ hprov)
      · exact absurd rfl hstop

/-- A pass of an idle executor, which is idle again afterwards. -/
theorem paddingBuffer_prefix (hcb : Reliable cb) (hm : ProvidesEach cb m)
    (h : Represents p.ringBuffer uids claimed pending) (hidle : p.executor.running = false)
    {out : Except Throwable Unit} (hpad : p.paddingBuffer cb fuel = some (out, p')) :
    ∃ k n, n < m ∧ Borrows cb p uids claimed pending (k + 1)
      (passUids cb p.executor.lastSecond k n) p' ∧ IsFull p'.ringBuffer ∧
      p'.executor.running = false := by
  obtain rfl := paddingBuffer_ok hcb h hpad
  rcases paddingBuffer_steps hpad with ⟨hrunning, -⟩ | ⟨-, mid, hloop, rfl⟩
  · rw [hidle] at hrunning
    cases hrunning
  · obtain ⟨k, n, hn, hborrows, hfull⟩ :=
      paddingLoop_prefix (p := p.setRunning true) hm h hloop
    exact ⟨k, n, hn, hborrows.of_setRunning.setRunning false, hfull, rfl⟩

/-- What a generator lays ahead with, which never changes. -/
structure Provision where
  callbacks : Callbacks
  perSecond : ℕ
  bufferSize : ℤ
  paddingThreshold : ℤ
  startSecond : ℤ

/-- The UIDs laid ahead so far, how many of them were returned, and from how many seconds
they were borrowed. -/
structure Lookahead where
  uids : List ℤ
  returned : ℕ
  seconds : ℕ

namespace Lookahead

def next (t : Lookahead) : Option ℤ := t.uids[t.returned]?

def take (t : Lookahead) : Lookahead := { t with returned := t.returned + t.next.toList.length }

def pass (P : Provision) (t : Lookahead) (k n : ℕ) : Lookahead where
  uids := t.uids ++ passUids P.callbacks (P.startSecond + t.seconds) k n
  returned := t.returned
  seconds := t.seconds + (k + 1)

structure Passes (P : Provision) (t : Lookahead) (k n : ℕ) : Prop where
  within : n < P.perSecond
  fits : ((t.pass P k n).uids.length : ℤ) ≤ t.returned + P.bufferSize

open CachedUidGenerator (Event)

inductive Step (P : Provision) (t : Lookahead) : Event → Lookahead → Prop
  | take {outcome : Except Throwable ℤ} (next : outcome.toOption = t.next) :
      Step P t (.getUID outcome) t.take
  /-- Few UIDs are left, and the call refills. -/
  | takeAndPass {outcome : Except Throwable ℤ} {k n : ℕ} (next : outcome.toOption = t.next)
      (few : (t.uids.length : ℤ) ≤ t.returned + P.paddingThreshold)
      (passes : t.take.Passes P k n)
      (full : t.take.returned + P.bufferSize ≤ (t.pass P k n).uids.length + 1) :
      Step P t (.getUID outcome) (t.take.pass P k n)
  | pass {e : Event} {k n : ℕ} (asked : e.asksForPass = true) (passes : t.Passes P k n) :
      Step P t e (t.pass P k n)

end Lookahead

structure Live (P : Provision) (p : PaddedRing) (t : Lookahead) : Prop where
  represents : Represents p.ringBuffer t.uids t.returned ∅
  size : p.ringBuffer.bufferSize = P.bufferSize
  threshold : p.ringBuffer.paddingThreshold = P.paddingThreshold
  attached : p.attached = true
  idle : p.executor.running = false
  live : p.executor.bufferPadExecutorsShutdown = false
  schedule : ∀ schedule ∈ p.executor.bufferPadSchedule, schedule.shutdown = false
  isLong : IsLong p.executor.lastSecond
  lastSecond : toLong p.executor.lastSecond = toLong (P.startSecond + t.seconds)

variable {P : Provision} {t t' : Lookahead}

structure Provision.Provides (P : Provision) : Prop where
  reliable : Reliable P.callbacks
  each : ProvidesEach P.callbacks P.perSecond
  rejects : P.callbacks.rejectedTakeHandler = exceptionRejectedTakeBuffer

/-- The pass of an idle executor lays ahead. -/
theorem Live.pass_of_borrows {q : PaddedRing} {taken : ℕ} (h : Live P p t)
    (hlast : q.executor.lastSecond = p.executor.lastSecond) (hm : ProvidesEach P.callbacks P.perSecond)
    (hborrows : Borrows P.callbacks q t.uids taken pending (k + 1)
      (passUids P.callbacks q.executor.lastSecond k n) p') :
    Represents p'.ringBuffer (t.pass P k n).uids taken pending ∧
      IsLong p'.executor.lastSecond ∧
      toLong p'.executor.lastSecond = toLong (P.startSecond + (t.pass P k n).seconds) := by
  have hsecond := passUids_congr P.callbacks (hlast ▸ h.lastSecond) k n
  have hrep := hborrows.ring.represents
  rw [map_toLong_passUids hm, hsecond] at hrep
  refine ⟨hrep, hborrows.isLong (hlast ▸ h.isLong), ?_⟩
  rw [hborrows.lastSecond, hlast, ← toLong_add_toLong, h.lastSecond, toLong_add_toLong, Lookahead.pass]
  push_cast
  rw [add_assoc]

theorem Live.pass (h : Live P p t) (hP : P.Provides) {out : Except Throwable Unit}
    (hpad : p.paddingBuffer P.callbacks fuel = some (out, p')) :
    ∃ k n, t.Passes P k n ∧ Live P p' (t.pass P k n) ∧ IsFull p'.ringBuffer := by
  obtain ⟨k, n, hn, hborrows, hfull, hidle⟩ :=
    paddingBuffer_prefix hP.reliable hP.each h.represents h.idle hpad
  obtain ⟨hrep, hlong, hlast⟩ :=
    h.pass_of_borrows rfl hP.each hborrows
  have hsize := hborrows.ring.shape.1.trans h.size
  refine ⟨k, n, ⟨hn, hsize ▸ hrep.length_le⟩, ⟨hrep, hsize, hborrows.ring.shape.2.trans h.threshold,
    hborrows.attached.trans h.attached, hidle, hborrows.shutdown.trans h.live,
    hborrows.schedule ▸ h.schedule, hlong, hlast⟩, hfull⟩

/-- A take that asks for no pass moves the cursor, or finds the ring empty. -/
theorem Live.quiet (h : Live P p t) (hrep : Represents p'.ringBuffer t.uids t.take.returned ∅)
    (hshape : SameShape p.ringBuffer p'.ringBuffer) (hexecutor : p'.executor = p.executor)
    (hattached : p'.attached = p.attached) : Live P p' t.take where
  represents := hrep
  size := hshape.1.trans h.size
  threshold := hshape.2.trans h.threshold
  attached := hattached.trans h.attached
  idle := hexecutor ▸ h.idle
  live := hexecutor ▸ h.live
  schedule := hexecutor ▸ h.schedule
  isLong := hexecutor ▸ h.isLong
  lastSecond := hexecutor ▸ h.lastSecond

theorem Live.cursor (h : Live P p t) (hbound : t.returned + 1 + P.bufferSize ≤ 2 ^ 63) :
    p.ringBuffer.cursor = t.returned - 1 ∧ p.ringBuffer.tail = t.uids.length - 1 := by
  have hlen := h.represents.length_le
  have hsize := h.size
  have hpos := p.ringBuffer.bufferSize_pos
  rw [h.represents.cursor, h.represents.tail, toLong_eq_self ⟨by omega, by omega⟩,
    toLong_eq_self ⟨by omega, by omega⟩]
  exact ⟨rfl, rfl⟩

theorem Live.take (h : Live P p t) (hP : P.Provides)
    (hbound : t.returned + 1 + P.bufferSize ≤ 2 ^ 63)
    (htake : p.take P.callbacks fuel = some (outcome, p')) :
    ∃ t', Live P p' t' ∧ ∀ out, out.toOption = outcome.toOption → t.Step P (.getUID out) t' := by
  obtain ⟨hcursor, htail⟩ := h.cursor hbound
  have hlen := h.represents.length_le
  have hsize := h.size
  have hpos := p.ringBuffer.bufferSize_pos
  have hreturned : t.returned ≤ 2 ^ 63 := by omega
  cases take_reads h.represents hP.rejects htake with
  | empty e hout hempty out hpadding =>
    have hnext : t.next = none := List.getElem?_eq_none hempty.ge
    have hsame : t.take = t := by rw [Lookahead.take, hnext]; rfl
    subst hout
    rcases triggerPadding_cases hpadding with ⟨-, -, rfl⟩ | ⟨-, hshut, -⟩ | ⟨htriggers, -, -, out', hpad⟩
    · refine ⟨t.take, ?_, fun out hfailed => .take (hfailed.trans hnext.symm)⟩
      rwa [hsame]
    · rw [h.live] at hshut
      cases hshut
    · obtain ⟨k, n, hpasses, hlive, hfull⟩ := h.pass hP hpad
      have hbelow := htriggers.1
      rw [h.threshold, hcursor, htail] at hbelow
      have hroom := (hfull.length_ge hlive.represents (by simp) hreturned).1
      rw [hlive.size] at hroom
      rw [← hsame] at hlive hpasses
      refine ⟨t.take.pass P k n, hlive, fun out hfailed =>
        .takeAndPass (hfailed.trans hnext.symm) (by omega) hpasses ?_⟩
      rw [hsame]
      exact hroom
  | lost e _ _ hloses _ _ =>
    obtain ⟨-, hmax | ⟨-, hshut, -⟩⟩ := hloses
    · omega
    · rw [h.live] at hshut
      cases hshut
  | read mid havailable _ hmoved hpadding hreads hshape hrest =>
    have hexecutor := congrArg (·.executor) hrest
    have hattached := congrArg (·.attached) hrest
    simp only at hexecutor hattached
    rcases triggerPadding_cases hpadding with ⟨-, -, rfl⟩ | ⟨-, -, herr, -⟩ | ⟨htriggers, -, -, out', hpad⟩
    · obtain ⟨uid, hout, hstored, hring⟩ := hreads [] (by simpa using hmoved)
      rw [List.map_nil, List.append_nil] at hring
      have htaken : t.take.returned = t.returned + 1 := by
        rw [Lookahead.take, Lookahead.next, hstored]
        rfl
      subst hout
      exact ⟨t.take, h.quiet (htaken ▸ hring) hshape hexecutor hattached,
        fun out hfound => .take (hfound.trans hstored.symm)⟩
    · cases herr
    · obtain ⟨k, n, hn, hborrows, hfull, hidle⟩ :=
        paddingBuffer_prefix (p := moveCursor p (p.ringBuffer.cursor + 1)) hP.reliable hP.each hmoved
          h.idle hpad
      obtain ⟨hrep, hlong, hlast⟩ :=
        h.pass_of_borrows (q := moveCursor p (p.ringBuffer.cursor + 1)) rfl hP.each hborrows
      have hbelow := htriggers.1
      rw [moveCursor_tail, show (moveCursor p (p.ringBuffer.cursor + 1)).ringBuffer.paddingThreshold =
        p.ringBuffer.paddingThreshold from rfl, h.threshold, hcursor, htail] at hbelow
      have hroom := (hfull.length_ge hrep (by simp) (by omega)).1
      rw [hborrows.ring.shape.1, show (moveCursor p (p.ringBuffer.cursor + 1)).ringBuffer.bufferSize =
        p.ringBuffer.bufferSize from rfl, hsize] at hroom
      obtain ⟨uid, hout, hstored, hring⟩ :=
        hreads (passUids P.callbacks (P.startSecond + t.seconds) k n)
          (by rw [map_toLong_passUids hP.each]; exact hrep)
      rw [map_toLong_passUids hP.each] at hring
      have htaken : t.take.returned = t.returned + 1 := by
        rw [Lookahead.take, Lookahead.next, hstored]
        rfl
      have hshape' : SameShape p.ringBuffer p'.ringBuffer :=
        ⟨hshape.1.trans hborrows.ring.shape.1, hshape.2.trans hborrows.ring.shape.2⟩
      have hnext : Represents p'.ringBuffer (t.take.pass P k n).uids (t.take.pass P k n).returned ∅ := by
        rw [Lookahead.pass, htaken]
        exact hring
      have hfits := hnext.length_le
      rw [hshape'.1, hsize] at hfits
      subst hout
      refine ⟨t.take.pass P k n, ⟨hnext, hshape'.1.trans hsize, hshape'.2.trans h.threshold,
        (hattached.trans hborrows.attached).trans h.attached, ?_, ?_, ?_, ?_, ?_⟩,
        fun out hfound => .takeAndPass (hfound.trans hstored.symm) (by omega) ⟨hn, hfits⟩ ?_⟩
      · rw [hexecutor]
        exact hidle
      · rw [hexecutor]
        exact hborrows.shutdown.trans h.live
      · rw [hexecutor, hborrows.schedule]
        exact h.schedule
      · rw [hexecutor]
        exact hlong
      · rw [hexecutor]
        exact hlast
      · rw [htaken]
        exact_mod_cast hroom

theorem Live.setSchedule (h : Live P p t) {schedule : ScheduledExecutorService}
    (hlive : schedule.shutdown = false) : Live P (p.setSchedule schedule) t where
  __ := h
  schedule s hs := by
    obtain rfl := Option.some.inj hs
    exact hlive

theorem Live.start (h : Live P p t) {out : Except Throwable Unit} (hstart : p.start = (out, p')) :
    Live P p' t := by
  unfold PaddedRing.start at hstart
  cases hschedule : p.executor.bufferPadSchedule with
  | none =>
    rw [hschedule] at hstart
    exact (Prod.mk.inj hstart).2 ▸ h
  | some schedule =>
    have hlive := h.schedule schedule hschedule
    simp only [hschedule, ScheduledExecutorService.scheduleWithFixedDelay, hlive, Bool.false_eq_true,
      if_false] at hstart
    exact (Prod.mk.inj hstart).2 ▸ h.setSchedule hlive

/-- A timer of a live schedule runs a pass. -/
theorem Live.fire (h : Live P p t) (hP : P.Provides) {schedule : ScheduledExecutorService}
    {timer : ℕ} (hschedule : p.executor.bufferPadSchedule = some schedule)
    (hfire : p.fire P.callbacks fuel timer = some p') :
    ∃ k n, t.Passes P k n ∧ Live P p' (t.pass P k n) := by
  have hlive := h.schedule schedule hschedule
  simp only [PaddedRing.fire, hschedule, hlive, Bool.false_eq_true, if_false] at hfire
  split at hfire
  · cases hfire
  · next out mid hpad =>
    have hfired : ({ schedule with armed := schedule.armed.erase timer } :
        ScheduledExecutorService).shutdown = false := hlive
    have hfirst := h.setSchedule hfired
    simp only [hlive] at hfirst
    obtain ⟨k, n, hpasses, hmid, -⟩ := hfirst.pass hP hpad
    refine ⟨k, n, hpasses, ?_⟩
    split at hfire
    · exact Option.some.inj hfire ▸ hmid
    · next schedule' hschedule' =>
      exact Option.some.inj hfire ▸ hmid.setSchedule (hmid.schedule schedule' hschedule')

namespace CachedUidGenerator

variable {settings : CachedSettings} {workerId now : ℤ} {g g' g₀ : CachedUidGenerator} {L : Layout}
  {filled : PaddedRing} {events : List Event}

/-- `g₀` with its ring of now, which holds what is laid ahead. -/
def LaysAhead (P : Provision) (g₀ g : CachedUidGenerator) (t : Lookahead) : Prop :=
  ∃ p, g = { g₀ with padded := some p } ∧ g₀.callbacks = P.callbacks ∧ Live P p t

theorem LaysAhead.step {e : Event} (h : LaysAhead P g₀ g t) (hP : P.Provides)
    (hbound : t.returned + e.outcome.toList.length + P.bufferSize ≤ 2 ^ 63)
    (hlive : ∀ out, e ≠ .destroy out) (hstep : Step g e g') : ∃ t', LaysAhead P g₀ g' t' ∧ t.Step P e t' := by
  obtain ⟨p, rfl, hcb, hring⟩ := h
  cases hstep with
  | getUID hget =>
    obtain ⟨out, p', htake, rfl, hout⟩ :=
      getUID_take (g := { g₀ with padded := some p }) rfl hget
    obtain ⟨t', hnext, ht⟩ := hring.take hP (by exact_mod_cast hbound) (hcb ▸ htake)
    exact ⟨t', ⟨p', rfl, hcb, hnext⟩, ht _ hout⟩
  | @paddingBuffer p₁ p' fuel outcome made hpad =>
    obtain rfl := Option.some.inj made
    obtain ⟨k, n, hpasses, hnext, -⟩ := hring.pass hP (hcb ▸ hpad)
    exact ⟨_, ⟨p', rfl, hcb, hnext⟩, .pass rfl hpasses⟩
  | @fire p₁ p' fuel schedule timer made scheduled _ hfire =>
    obtain rfl := Option.some.inj made
    obtain ⟨k, n, hpasses, hnext⟩ := hring.fire hP scheduled (hcb ▸ hfire)
    exact ⟨_, ⟨p', rfl, hcb, hnext⟩, .pass rfl hpasses⟩
  | destroy _ => exact absurd rfl (hlive _)

end CachedUidGenerator

namespace Lookahead

open CachedUidGenerator (Event callOutcomes returnedUids callOutcomes_snoc)

variable {events : List Event}

/-- What is returned so far are the first of the UIDs laid ahead. -/
structure Returns (events : List Event) (t : Lookahead) : Prop where
  uids : returnedUids events = t.uids.take t.returned
  le : t.returned ≤ t.uids.length
  calls : t.returned ≤ (callOutcomes events).length

theorem take_returned_le (hle : t.returned ≤ t.uids.length) :
    t.take.returned ≤ t.take.uids.length := by
  rw [take, next]
  rcases lt_or_eq_of_le hle with hlt | heq
  · rw [List.getElem?_eq_getElem hlt]
    exact hlt
  · rw [List.getElem?_eq_none heq.ge]
    exact hle

theorem Returns.take (h : Returns events t) {outcome : Except Throwable ℤ}
    (hnext : outcome.toOption = t.next) : Returns (events ++ [.getUID outcome]) t.take := by
  have hcalls := h.calls
  have hle := h.le
  have hone : t.next.toList.length ≤ 1 := by cases t.next <;> simp
  refine ⟨?_, take_returned_le hle, ?_⟩
  · rw [returnedUids, filterMap_snoc, ← returnedUids, h.uids,
      show (Event.getUID outcome).uid = outcome.toOption from rfl, hnext, Lookahead.take, next]
    rcases lt_or_eq_of_le hle with hlt | heq
    · rw [List.getElem?_eq_getElem hlt, Option.toList_some, List.length_singleton,
        ← List.take_append_getElem hlt]
    · rw [List.getElem?_eq_none heq.ge]
      simp
  · rw [callOutcomes_snoc, List.length_append]
    exact Nat.add_le_add hcalls hone

theorem Returns.pass (h : Returns events t) (P : Provision) (k n : ℕ) : Returns events (t.pass P k n) where
  uids := by
    rw [h.uids, Lookahead.pass, List.take_append_of_le_length h.le]
  le := by
    rw [Lookahead.pass, List.length_append]
    exact h.le.trans (Nat.le_add_right _ _)
  calls := h.calls

theorem uid_of_asked {e : Event} (h : e.asksForPass = true) : e.uid = none ∧ e.outcome = none := by
  cases e with
  | paddingBuffer _ => exact ⟨rfl, rfl⟩
  | fire _ => exact ⟨rfl, rfl⟩
  | getUID _ => cases h
  | destroy _ => cases h

theorem Returns.asked (h : Returns events t) {e : Event} (hasked : e.asksForPass = true) :
    Returns (events ++ [e]) t := by
  obtain ⟨huid, houtcome⟩ := uid_of_asked hasked
  refine ⟨?_, h.le, ?_⟩
  · rw [returnedUids, filterMap_snoc, ← returnedUids, huid, h.uids, Option.toList_none,
      List.append_nil]
  · rw [callOutcomes_snoc, houtcome]
    simpa using h.calls

theorem Returns.step {e : Event} (h : Returns events t) (hstep : t.Step P e t') :
    Returns (events ++ [e]) t' := by
  cases hstep with
  | take hnext => exact h.take hnext
  | takeAndPass hnext _ _ _ => exact (h.take hnext).pass P _ _
  | pass hasked _ => exact (h.asked hasked).pass P _ _

end Lookahead

namespace CachedUidGenerator

variable {settings : CachedSettings} {workerId now : ℤ} {g g₀ : CachedUidGenerator} {L : Layout}
  {filled : PaddedRing} {events : List Event} {t₀ : Lookahead}

/-- A run of the generator is a run of what it is for, through states of it alone. -/
theorem LaysAhead.run {Q : CachedUidGenerator → Prop} (h : LaysAhead P g₀ g₀ t₀)
    (h0 : t₀.returned = 0) (hP : P.Provides)
    (hbound : (callOutcomes events).length + P.bufferSize ≤ 2 ^ 63)
    (hlive : ∀ out, .destroy out ∉ events) (hrun : Run (Within Step Q) g₀ events g) :
    ∃ t, LaysAhead P g₀ g t ∧ Lookahead.Returns events t ∧
      Run (Within (Lookahead.Step P) fun t => ∃ s, Q s ∧ LaysAhead P g₀ s t) t₀ events t := by
  induction events using List.reverseRecOn generalizing g with
  | nil =>
    obtain rfl := run_nil.1 hrun
    exact ⟨t₀, h, ⟨by simp [h0, returnedUids], by omega, by omega⟩, Run.nil⟩
  | append_singleton events e ih =>
    obtain ⟨s, hpre, hstep, hQ⟩ := run_snoc.1 hrun
    rw [callOutcomes_snoc, List.length_append, Nat.cast_add] at hbound
    obtain ⟨t, hlays, hreturns, hruns⟩ :=
      ih (by omega) (fun out hmem => hlive out (List.mem_append_left _ hmem)) hpre
    have hcalls := hreturns.calls
    obtain ⟨t', hnext, ht⟩ :=
      hlays.step hP (by omega) (fun out he => hlive out (by simp [he])) hstep
    exact ⟨t', hnext, hreturns.step ht, hruns.snoc ⟨ht, g, hQ, hnext⟩⟩

theorem providesEach (hA : g.bitsAllocator = some L.allocator) (hs : L.s ≤ 31) :
    ProvidesEach (defaultCallbacks g.nextIdsForOneSecond) (2 ^ L.s) := fun second =>
  ⟨_, (nextIdsForOneSecond_eq hA second).trans (if_pos hs), by rw [List.length_map, List.length_range],
    fun uid huid => by
      obtain ⟨offset, -, rfl⟩ := List.mem_map.1 huid
      exact isLong_batchUid g L second offset⟩

structure Begins (P : Provision) (L : Layout) (now : ℤ) (g : CachedUidGenerator) (k n : ℕ) : Prop where
  provides : P.Provides
  perSecond : P.perSecond = 2 ^ L.s
  startSecond : P.startSecond = toSeconds now
  seqBits_le : L.s ≤ 31
  threshold_lt : P.paddingThreshold < P.bufferSize
  bufferSize_lt : P.bufferSize < 2 ^ 32
  passes : Lookahead.Passes P ⟨[], 0, 0⟩ k n
  full : P.bufferSize ≤ (Lookahead.pass P ⟨[], 0, 0⟩ k n).uids.length
  laysAhead : LaysAhead P g g (Lookahead.pass P ⟨[], 0, 0⟩ k n)

theorem Ready.begins (h : Ready settings workerId now L g filled) (hnow : IsTime now)
    (hput : settings.rejectedPutBufferHandler = none)
    (htake : settings.rejectedTakeBufferHandler = none) :
    ∃ P k n, Begins P L now g k n := by
  obtain ⟨r, fuel, hnew, hpad⟩ := h.fill
  obtain ⟨p, hstart, hp⟩ := h.start
  obtain ⟨hrep, hbuffer, -, hfactor, hthreshold, -, -⟩ := represents_new hnew
  obtain ⟨i, hsi, hi, -⟩ := numberShiftLeft_two_pow (hbuffer ▸ r.bufferSize_pos)
  have hdefault := callbacks_default (h.rejectedPut.trans hput) (h.rejectedTake.trans htake)
  have hs : L.s ≤ 31 := by omega
  let P : Provision := ⟨g.callbacks, 2 ^ L.s, r.bufferSize, r.paddingThreshold, toSeconds now⟩
  have hcb : P.callbacks = defaultCallbacks g.nextIdsForOneSecond := hdefault
  have hprovides : P.Provides := by
    refine ⟨?_, ?_, ?_⟩
    · rw [hcb]
      exact reliable h.bitsAllocator hs
    · rw [hcb]
      exact providesEach h.bitsAllocator hs
    · rw [hcb]
      rfl
  have hempty : Live P ⟨r, .new now settings.scheduleInterval.isSome, true⟩ ⟨[], 0, 0⟩ := by
    have hseconds := toSeconds_bounds hnow
    refine ⟨hrep, rfl, rfl, rfl, rfl, rfl, ?_, ⟨?_, ?_⟩, ?_⟩
    · intro schedule hschedule
      simp only [BufferPaddingExecutor.new] at hschedule
      split_ifs at hschedule
      · rw [← Option.some.inj hschedule]
      · cases hschedule
    · exact (by norm_num : (-2 : ℤ) ^ 63 ≤ -8640000000000).trans hseconds.1
    · exact hseconds.2.trans_lt (by norm_num)
    · simp [BufferPaddingExecutor.new, P]
  obtain ⟨k, n, hpasses, hlive, hfull⟩ := hempty.pass hprovides hpad
  have hroom := (hfull.length_ge hlive.represents (by simp) (by simp [Lookahead.pass])).2 rfl
  rw [hlive.size] at hroom
  refine ⟨P, k, n, hprovides, rfl, rfl, hs, ?_, r.bufferSize_lt, hpasses, hroom, p, ?_, rfl,
    hlive.start hstart⟩
  · have hpos : (0 : ℚ) < r.bufferSize := by exact_mod_cast r.bufferSize_pos
    rw [show P.paddingThreshold = r.paddingThreshold from rfl, hthreshold, ← hbuffer, Int.floor_lt,
      div_lt_iff₀ (by norm_num)]
    exact mul_lt_mul_of_pos_left hfactor hpos
  · rw [← hp]

end CachedUidGenerator

end UID
