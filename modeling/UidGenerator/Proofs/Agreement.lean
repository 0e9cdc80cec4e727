import UidGenerator.Proofs.Lookahead
import UidGenerator.Proofs.Serial

/-! A `CachedUidGenerator` returns the UIDs that the `DefaultUidGenerator` it extends would
return, were it called in the seconds that are borrowed, each as often as the ring took UIDs
of the second. -/

namespace UID

open RingBuffer Transition

/-- The next sequence of the second, or the first one of a later second. -/
def Stamp.Next (a b : Stamp) : Prop :=
  b.second = a.second ∧ b.sequence = a.sequence + 1 ∨ a.second < b.second ∧ b.sequence = 0

def secondStamps (second : ℤ) (n : ℕ) : List Stamp :=
  (List.range n).map fun offset : ℕ => ⟨second, offset⟩

/-- All `m` stamps of `k` seconds after `lastSecond`, and the first `n` of one second more. -/
def passStamps (m : ℕ) (lastSecond : ℤ) : ℕ → ℕ → List Stamp
  | 0, n => secondStamps (lastSecond + 1) n
  | k + 1, n => secondStamps (lastSecond + 1) m ++ passStamps m (lastSecond + 1) k n

variable {m k n : ℕ} {stamps : List Stamp} {second lastSecond : ℤ} {L : Layout}

theorem secondStamps_succ (second : ℤ) (n : ℕ) :
    secondStamps second (n + 1) = secondStamps second n ++ [⟨second, n⟩] := by
  rw [secondStamps, List.range_succ, List.map_append]
  rfl

theorem mem_secondStamps {a : Stamp} :
    a ∈ secondStamps second n ↔ a.second = second ∧ 0 ≤ a.sequence ∧ a.sequence < n := by
  simp only [secondStamps, List.mem_map, List.mem_range]
  constructor
  · rintro ⟨offset, hlt, rfl⟩
    exact ⟨rfl, Int.natCast_nonneg _, Int.ofNat_lt.2 hlt⟩
  · rintro ⟨rfl, h0, hlt⟩
    refine ⟨a.sequence.toNat, by omega, ?_⟩
    rw [Int.toNat_of_nonneg h0]

theorem isChain_secondStamps (second : ℤ) (n : ℕ) : (secondStamps second n).IsChain Stamp.Next := by
  induction n with
  | zero => exact List.isChain_nil
  | succ n ih =>
    rw [secondStamps_succ, List.isChain_append]
    refine ⟨ih, List.isChain_singleton _, ?_⟩
    rintro a ha b hb
    obtain rfl : (⟨second, n⟩ : Stamp) = b := Option.some.inj hb
    cases n with
    | zero => cases ha
    | succ n =>
      rw [secondStamps_succ, List.getLast?_concat] at ha
      obtain rfl : (⟨second, n⟩ : Stamp) = a := Option.some.inj ha
      exact Or.inl ⟨rfl, by push_cast; rfl⟩

/-- A later second starts with its first stamp. -/
theorem isChain_append_second (h : stamps.IsChain Stamp.Next)
    (hlt : ∀ a ∈ stamps, a.second < second) (n : ℕ) :
    (stamps ++ secondStamps second n).IsChain Stamp.Next := by
  refine List.isChain_append.2 ⟨h, isChain_secondStamps second n, ?_⟩
  rintro a ha b hb
  cases n with
  | zero => cases hb
  | succ n =>
    rw [secondStamps, List.range_succ_eq_map] at hb
    obtain rfl : (⟨second, 0⟩ : Stamp) = b := Option.some.inj hb
    exact Or.inr ⟨hlt a (List.mem_of_getLast? ha), rfl⟩

theorem isChain_append_pass (h : stamps.IsChain Stamp.Next)
    (hle : ∀ a ∈ stamps, a.second ≤ lastSecond) (k n : ℕ) :
    (stamps ++ passStamps m lastSecond k n).IsChain Stamp.Next := by
  induction k generalizing stamps lastSecond with
  | zero => exact isChain_append_second h (fun a ha => Int.lt_add_one_of_le (hle a ha)) n
  | succ k ih =>
    rw [passStamps, ← List.append_assoc]
    refine ih (isChain_append_second h (fun a ha => Int.lt_add_one_of_le (hle a ha)) m) ?_
    intro a ha
    rcases List.mem_append.1 ha with hold | hnew
    · exact (hle a hold).trans (Int.le_add_one le_rfl)
    · exact (mem_secondStamps.1 hnew).1.le

theorem mem_passStamps (hn : n ≤ m) {a : Stamp} (h : a ∈ passStamps m lastSecond k n) :
    (lastSecond < a.second ∧ a.second ≤ lastSecond + (k + 1)) ∧ 0 ≤ a.sequence ∧ a.sequence < m := by
  induction k generalizing lastSecond with
  | zero =>
    obtain ⟨hsecond, h0, hlt⟩ := mem_secondStamps.1 h
    omega
  | succ k ih =>
    rcases List.mem_append.1 h with h | h
    · obtain ⟨hsecond, h0, hlt⟩ := mem_secondStamps.1 h
      omega
    · have hrest := ih h
      push_cast at hrest ⊢
      omega

namespace DefaultUidGenerator

variable {d : DefaultUidGenerator}

/-- A call in the second of the next stamp returns its UID. -/
theorem callStep_next (hA : d.bitsAllocator = some L.allocator) {a : Stamp}
    (hnext : Stamp.Next ⟨d.lastSecond, d.sequence⟩ a) (hd : 0 ≤ d.sequence)
    (hlt : a.sequence < 2 ^ L.s) (hlong : IsLong a.second)
    (hrange : a.second ≤ d.epochSeconds + L.allocator.maxDeltaSeconds) :
    CallStep d ⟨[a.second * 1000], .ok (d.uidOf L.allocator a)⟩
      { d with sequence := a.sequence, lastSecond := a.second } := by
  have hread : toSeconds (a.second * 1000) = a.second := by
    rw [toSeconds, Int.mul_tdiv_cancel _ (by norm_num), toLong_eq_self hlong]
  have hcurrent : d.getCurrentSecond L.allocator (a.second * 1000) = .ok a.second := by
    rw [getCurrentSecond, hread, if_neg (by omega)]
  simp only [CallStep, getUID, nextId, hA, nextIdAt, hcurrent]
  rcases hnext with ⟨hsame, hsequence⟩ | ⟨hlater, hsequence⟩
  · simp only at hsame hsequence
    have hand : and (d.sequence + 1) L.allocator.maxSequence = a.sequence := by
      rw [and_maxSequence, ← hsequence, Int.emod_eq_of_lt (by omega) hlt]
    simp only [hsame, lt_irrefl, if_false, if_true, hand, if_neg (show ¬a.sequence = 0 by omega), issue,
      uidOf]
  · simp only at hlater
    simp only [if_neg hlater.not_gt, if_neg hlater.ne', issue, uidOf, hsequence]

def callsFor (d : DefaultUidGenerator) (A : BitsAllocator) (stamps : List Stamp) : List Call :=
  stamps.map fun a => ⟨[a.second * 1000], .ok (d.uidOf A a)⟩

theorem calls_of_isChain (hA : d.bitsAllocator = some L.allocator) (hd : 0 ≤ d.sequence)
    (hchain : (⟨d.lastSecond, d.sequence⟩ :: stamps).IsChain Stamp.Next)
    (hstamps : ∀ a ∈ stamps, 0 ≤ a.sequence ∧ a.sequence < 2 ^ L.s ∧ IsLong a.second ∧
      a.second ≤ d.epochSeconds + L.allocator.maxDeltaSeconds) :
    ∃ d', Calls d (d.callsFor L.allocator stamps) d' := by
  induction stamps generalizing d with
  | nil => exact ⟨d, Run.nil⟩
  | cons a stamps ih =>
    obtain ⟨hnext, hrest⟩ := List.isChain_cons_cons.1 hchain
    obtain ⟨h0, hlt, hlong, hrange⟩ := hstamps a List.mem_cons_self
    obtain ⟨d', hcalls⟩ := ih (d := { d with sequence := a.sequence, lastSecond := a.second }) hA h0
      hrest fun b hb => hstamps b (List.mem_cons_of_mem _ hb)
    exact ⟨d', Run.cons (callStep_next hA hnext hd hlt hlong hrange) hcalls⟩

end DefaultUidGenerator

variable {P : Provision} {t t' : Lookahead} {uids : List ℤ}

namespace CachedUidGenerator

variable {settings : CachedSettings} {workerId now : ℤ} {g g₀ : CachedUidGenerator} {fuel : ℕ}
  {events : List Event}

theorem provided_eq_stamps (hA : g.bitsAllocator = some L.allocator) (hs : L.s ≤ 31) {second : ℤ}
    (hlong : IsLong second) (hn : n ≤ 2 ^ L.s) :
    (provided g.callbacks (toLong second)).take n =
      (secondStamps second n).map (g.uidOf L.allocator) := by
  rw [provided_eq hA, if_pos hs, toLong_eq_self hlong, ← List.map_take, List.take_range,
    min_eq_left hn, secondStamps, List.map_map]
  rfl

theorem passUids_eq_stamps (hA : g.bitsAllocator = some L.allocator) (hs : L.s ≤ 31)
    (hn : n ≤ 2 ^ L.s) (hlong : -2 ^ 63 ≤ lastSecond) (hlong' : lastSecond + (k + 1) < 2 ^ 63) :
    passUids g.callbacks lastSecond k n =
      (passStamps (2 ^ L.s) lastSecond k n).map (g.uidOf L.allocator) := by
  induction k generalizing lastSecond with
  | zero =>
    rw [passUids_zero, passStamps]
    exact provided_eq_stamps hA hs ⟨by omega, by omega⟩ hn
  | succ k ih =>
    push_cast at hlong'
    have hlen : (provided g.callbacks (toLong (lastSecond + 1))).take (2 ^ L.s) =
        provided g.callbacks (toLong (lastSecond + 1)) := by
      rw [provided_eq hA, if_pos hs]
      exact List.take_of_length_le (by simp)
    rw [passUids_succ, passStamps, List.map_append, ih (by omega) (by omega), ← hlen,
      provided_eq_stamps hA hs ⟨by omega, by omega⟩ le_rfl]

/-- The UIDs laid ahead are those of stamps in the order of issue. -/
structure Stamped (P : Provision) (L : Layout) (g : CachedUidGenerator) (t : Lookahead)
    (stamps : List Stamp) : Prop where
  uids : t.uids = stamps.map (g.uidOf L.allocator)
  chain : (⟨-1, 0⟩ :: stamps).IsChain Stamp.Next
  borrowed : ∀ a ∈ stamps, P.startSecond < a.second ∧ a.second ≤ P.startSecond + t.seconds
  sequence : ∀ a ∈ stamps, 0 ≤ a.sequence ∧ a.sequence < 2 ^ L.s

theorem Stamped.pass (h : Stamped P L g t stamps) (hA : g.bitsAllocator = some L.allocator)
    (hs : L.s ≤ 31) (hcb : g.callbacks = P.callbacks) (hn : n ≤ 2 ^ L.s) (hstart : -1 ≤ P.startSecond)
    (hlong : P.startSecond + (t.pass P k n).seconds < 2 ^ 63) :
    Stamped P L g (t.pass P k n)
      (stamps ++ passStamps (2 ^ L.s) (P.startSecond + t.seconds) k n) := by
  simp only [Lookahead.pass] at hlong
  push_cast at hlong
  refine ⟨?_, ?_, ?_, ?_⟩
  · rw [Lookahead.pass, List.map_append, h.uids, ← hcb,
      passUids_eq_stamps hA hs hn (by omega) (by omega)]
  · rw [← List.cons_append]
    refine isChain_append_pass h.chain ?_ k n
    intro a ha
    rcases List.mem_cons.1 ha with rfl | ha
    · exact hstart.trans (le_add_of_nonneg_right (Int.natCast_nonneg _))
    · exact (h.borrowed a ha).2
  · intro a ha
    simp only [Lookahead.pass]
    push_cast
    rcases List.mem_append.1 ha with ha | ha
    · have := h.borrowed a ha
      omega
    · have := (mem_passStamps hn ha).1
      omega
  · intro a ha
    rcases List.mem_append.1 ha with ha | ha
    · exact h.sequence a ha
    · exact_mod_cast (mem_passStamps hn ha).2

/-- As long as the borrowed seconds lie in the field, `lastSecond` does not wrap. -/
theorem LaysAhead.inField (h : LaysAhead P g₀ g t)
    (hfield : BorrowsInField P.startSecond g₀.epochSeconds L.allocator g)
    (hstart : -1 ≤ P.startSecond ∧ P.startSecond ≤ 8640000000000) (hsmall : t.seconds ≤ 2 ^ 62 + 2 ^ 33) :
    t.seconds ≤ 2 ^ 62 ∧ ∀ second, P.startSecond < second → second ≤ P.startSecond + t.seconds →
      second ≤ g₀.epochSeconds + L.allocator.maxDeltaSeconds ∧
        ∀ p ∈ g.padded, second ≤ p.executor.lastSecond := by
  obtain ⟨p, rfl, -, hring⟩ := h
  have hlast : p.executor.lastSecond = P.startSecond + t.seconds := by
    rw [← toLong_eq_self hring.isLong, hring.lastSecond, toLong_eq_self ⟨by omega, by omega⟩]
  refine ⟨?_, fun second hlo hhi => ⟨?_, ?_⟩⟩
  · rcases Nat.eq_zero_or_pos t.seconds with hzero | hpos
    · omega
    · have hmax : L.allocator.maxDeltaSeconds = 2 ^ L.t - 1 := rfl
      have hrange : (2 : ℤ) ^ L.t ≤ 2 ^ 62 :=
        pow_le_pow_right₀ (by norm_num) (by have := L.bits_sum; have := L.w_pos; omega)
      have hearliest := hfield p rfl (P.startSecond + 1) (by omega) (by omega)
      have hlatest := hfield p rfl p.executor.lastSecond (by omega) le_rfl
      omega
  · exact (hfield p rfl second hlo (by omega)).2
  · rintro q hq
    obtain rfl := Option.some.inj hq
    omega

/-- No pass borrows more seconds than there are slots, and one. -/
theorem passes_seconds_le (h : t.Passes P k n) (hP : P.Provides) (hle : t.returned ≤ t.uids.length) :
    (k : ℤ) ≤ P.bufferSize := by
  have hfits := h.fits
  have hpos : 0 < P.perSecond := (Nat.zero_le n).trans_lt h.within
  have hmul : k ≤ P.perSecond * k := Nat.le_mul_of_pos_left k hpos
  rw [Lookahead.pass, List.length_append, length_passUids hP.each _ _ h.within] at hfits
  push_cast at hfits
  omega

structure Agrees (P : Provision) (L : Layout) (g₀ : CachedUidGenerator) (t : Lookahead) : Prop where
  returned : t.returned ≤ t.uids.length
  seconds : t.seconds ≤ 2 ^ 62
  stamped : ∃ stamps, Stamped P L g₀ t stamps

theorem Agrees.take (h : Agrees P L g₀ t) : Agrees P L g₀ t.take := by
  obtain ⟨hle, hseconds, stamps, hstamped⟩ := h
  refine ⟨?_, hseconds, stamps, hstamped.uids, hstamped.chain, hstamped.borrowed, hstamped.sequence⟩
  exact Lookahead.take_returned_le hle

theorem Agrees.pass {k₀ n₀ : ℕ} (h : Agrees P L g₀ t) (hbegins : Begins P L now g₀ k₀ n₀)
    (hA : g₀.bitsAllocator = some L.allocator)
    (hstart : -1 ≤ P.startSecond ∧ P.startSecond ≤ 8640000000000) (hpasses : t.Passes P k n)
    (hlays : LaysAhead P g₀ g (t.pass P k n))
    (hfield : BorrowsInField P.startSecond g₀.epochSeconds L.allocator g) :
    Agrees P L g₀ (t.pass P k n) := by
  obtain ⟨hle, hseconds, stamps, hstamped⟩ := h
  obtain ⟨-, -, hcb, -⟩ := id hlays
  have hk := passes_seconds_le hpasses hbegins.provides hle
  have hsize := hbegins.bufferSize_lt
  have hcount : (t.pass P k n).seconds = t.seconds + (k + 1) := rfl
  refine ⟨?_, (hlays.inField hfield hstart (by omega)).1, _, hstamped.pass hA hbegins.seqBits_le hcb
    (hbegins.perSecond ▸ hpasses.within.le) hstart.1 (by omega)⟩
  rw [Lookahead.pass, List.length_append]
  exact hle.trans (Nat.le_add_right _ _)

theorem Agrees.step {k₀ n₀ : ℕ} {e : Event} (h : Agrees P L g₀ t) (hbegins : Begins P L now g₀ k₀ n₀)
    (hA : g₀.bitsAllocator = some L.allocator)
    (hstart : -1 ≤ P.startSecond ∧ P.startSecond ≤ 8640000000000) (hlays : LaysAhead P g₀ g t')
    (hfield : BorrowsInField P.startSecond g₀.epochSeconds L.allocator g) (hstep : t.Step P e t') :
    Agrees P L g₀ t' := by
  cases hstep with
  | take _ => exact h.take
  | takeAndPass _ _ hpasses _ => exact h.take.pass hbegins hA hstart hpasses hlays hfield
  | pass _ hpasses => exact h.pass hbegins hA hstart hpasses hlays hfield

/-- Calls at the seconds of the UIDs returned. -/
theorem Agrees.calls (h : Agrees P L g₀ t) (hreturns : Lookahead.Returns events t)
    (hA : g₀.bitsAllocator = some L.allocator) (hsequence : g₀.sequence = 0)
    (hlast : g₀.lastSecond = -1) (hstart : -1 ≤ P.startSecond ∧ P.startSecond ≤ 8640000000000)
    (hlays : LaysAhead P g₀ g t)
    (hfield : BorrowsInField P.startSecond g₀.epochSeconds L.allocator g) :
    ∃ clock : List ℤ, ∃ d, DefaultUidGenerator.Calls g₀.toDefaultUidGenerator
        (clock.zipWith (fun second uid => ⟨[second * 1000], .ok uid⟩) (returnedUids events)) d ∧
      clock.length = (returnedUids events).length ∧ clock.Pairwise (· ≤ ·) ∧
      ∀ second ∈ clock, P.startSecond < second ∧ ∀ p ∈ g.padded, second ≤ p.executor.lastSecond := by
  obtain ⟨-, hseconds, stamps, hstamped⟩ := h
  have hin := (hlays.inField hfield hstart (by omega)).2
  have huids : returnedUids events = (stamps.take t.returned).map (g₀.uidOf L.allocator) := by
    rw [hreturns.uids, hstamped.uids, List.map_take]
  have hborrowed : ∀ a ∈ stamps.take t.returned,
      P.startSecond < a.second ∧ a.second ≤ P.startSecond + t.seconds :=
    fun a ha => hstamped.borrowed a (List.mem_of_mem_take ha)
  have hchain : (⟨-1, 0⟩ :: stamps.take t.returned).IsChain Stamp.Next := by
    rw [← List.take_succ_cons]
    exact hstamped.chain.take _
  obtain ⟨d, hcalls⟩ := DefaultUidGenerator.calls_of_isChain (d := g₀.toDefaultUidGenerator) hA
    hsequence.ge (by rwa [hsequence, hlast]) fun a ha => by
      obtain ⟨hlo, hhi⟩ := hborrowed a ha
      obtain ⟨h0, hlt⟩ := hstamped.sequence a (List.mem_of_mem_take ha)
      exact ⟨h0, hlt, ⟨by omega, by omega⟩, (hin a.second hlo hhi).1⟩
  refine ⟨(stamps.take t.returned).map Stamp.second, d, ?_, ?_, ?_, ?_⟩
  · rw [huids, List.zipWith_map, List.zipWith_self]
    exact hcalls
  · rw [huids, List.length_map, List.length_map]
  · rw [← List.isChain_iff_pairwise, List.isChain_map]
    refine hchain.tail.imp fun a b hab => ?_
    rcases hab with ⟨hsame, -⟩ | ⟨hlater, -⟩
    · exact hsame.ge
    · exact hlater.le
  · intro second hsecond
    obtain ⟨a, ha, rfl⟩ := List.mem_map.1 hsecond
    obtain ⟨hlo, hhi⟩ := hborrowed a ha
    exact ⟨hlo, (hin a.second hlo hhi).2⟩

/-- The extended generator is initialized with the same settings. -/
theorem super_of_init
    (h : (configured settings).afterPropertiesSet (.ok workerId) now fuel = some (.ok (), g₀)) :
    (DefaultUidGenerator.configured settings.toSettings).afterPropertiesSet (.ok workerId) =
      (.ok (), g₀.toDefaultUidGenerator) := by
  unfold afterPropertiesSet at h
  cases hsuper : (configured settings).toDefaultUidGenerator.afterPropertiesSet (.ok workerId) with
  | mk out super =>
    cases out with
    | error e => simp [hsuper] at h
    | ok _ =>
      obtain ⟨L, _, ⟨⟩, -, -, -, -, rfl⟩ := DefaultUidGenerator.afterPropertiesSet_ok hsuper
      simp only [hsuper] at h
      obtain ⟨r, -, hfill⟩ := initRingBuffer_ok h
      obtain ⟨filled, p, -, -, rfl⟩ := fillRingBuffer_ok hfill
      exact hsuper

/-- As long as the borrowed seconds lie in the timestamp field, the UIDs returned are those
that the extended generator returns when it is called at some of these seconds, one call for
each UID, in the order of the seconds. -/
theorem agrees_with_default {A : BitsAllocator} (hnow : IsTime now) (hstart : -1 ≤ toSeconds now)
    (hput : settings.rejectedPutBufferHandler = none)
    (htake : settings.rejectedTakeBufferHandler = none)
    (hinit : (configured settings).afterPropertiesSet (.ok workerId) now fuel = some (.ok (), g₀))
    (hA : g₀.bitsAllocator = some A) (hlive : ∀ out, .destroy out ∉ events)
    (hfirst : BorrowsInField (toSeconds now) settings.epochSeconds A g₀)
    (hrun : Run (Within Step (BorrowsInField (toSeconds now) settings.epochSeconds A)) g₀ events g)
    (hbound : ∀ p ∈ g₀.padded, (callOutcomes events).length + p.ringBuffer.bufferSize ≤ 2 ^ 63) :
    (DefaultUidGenerator.configured settings.toSettings).afterPropertiesSet (.ok workerId) =
      (.ok (), g₀.toDefaultUidGenerator) ∧
    ∃ clock : List ℤ, ∃ d, DefaultUidGenerator.Calls g₀.toDefaultUidGenerator
        (clock.zipWith (fun second uid => ⟨[second * 1000], .ok uid⟩) (returnedUids events)) d ∧
      clock.length = (returnedUids events).length ∧ clock.Pairwise (· ≤ ·) ∧
      ∀ second ∈ clock, toSeconds now < second ∧ ∀ p ∈ g.padded, second ≤ p.executor.lastSecond := by
  obtain ⟨L, filled, hready⟩ := ready_of_init hinit
  obtain rfl : L.allocator = A := Option.some.inj (hready.bitsAllocator.symm.trans hA)
  obtain ⟨P, k, n, hbegins⟩ := hready.begins hnow hput htake
  obtain ⟨p₀, hg₀, -, hlive₀⟩ := id hbegins.laysAhead
  have hseconds := toSeconds_bounds hnow
  rw [← hready.epochSeconds, ← hbegins.startSecond] at hfirst hrun
  rw [← hbegins.startSecond] at hstart hseconds
  obtain ⟨t, hlays, hreturns, hmodel⟩ := hbegins.laysAhead.run rfl hbegins.provides
    (hlive₀.size ▸ hbound p₀ (by rw [hg₀]; rfl)) hlive hrun
  have hnone : Agrees P L g₀ ⟨[], 0, 0⟩ :=
    ⟨le_rfl, Nat.zero_le _, [], rfl, List.isChain_singleton _, by simp, by simp⟩
  have hagrees : Agrees P L g₀ t :=
    hmodel.invariant (fun _ t => Agrees P L g₀ t)
      (hnone.pass hbegins hA ⟨hstart, hseconds.2⟩ hbegins.passes hbegins.laysAhead hfirst)
      fun _ _ _ _ _ h ⟨hstep, s, hfield, hlays⟩ =>
        h.step hbegins hA ⟨hstart, hseconds.2⟩ hlays hfield hstep
  have hsuper := super_of_init hinit
  obtain ⟨L', hdefault⟩ := DefaultUidGenerator.ready_of_init hsuper
  refine ⟨hsuper, ?_⟩
  rw [← hbegins.startSecond]
  exact hagrees.calls hreturns hA hdefault.sequence hdefault.lastSecond ⟨hstart, hseconds.2⟩ hlays
    (hrun.last hfirst)

/-- The third UID returned is the first of the second second, and asks for a pass. -/
theorem agrees_with_default_four_slots :
    ∃ (g₀ g : CachedUidGenerator) (clock : List ℤ) (d : DefaultUidGenerator),
      (configured fourSlots).afterPropertiesSet (.ok 1) 0 3 = some (.ok (), g₀) ∧
      Runs g₀ [.getUID (.ok 10), .getUID (.ok 11), .getUID (.ok 18)] g ∧ clock.length = 3 ∧
      DefaultUidGenerator.Calls g₀.toDefaultUidGenerator
        (clock.zipWith (fun second uid => ⟨[second * 1000], .ok uid⟩) [10, 11, 18]) d := by
  let g := initialized fourSlots
  let next (g : CachedUidGenerator) := ((g.getUID 5).map Prod.snd).getD g
  have hcall (s : CachedUidGenerator) (uid : ℤ) (h : (s.getUID 5).map Prod.fst = some (.ok uid)) :
      Step s (.getUID (.ok uid)) (next s) := .getUID (eq_some_of_map_fst s h)
  obtain ⟨A, hA, hmax⟩ : ∃ A, g.bitsAllocator = some A ∧ A.maxDeltaSeconds = 2 ^ 60 - 1 :=
    ⟨_, rfl, by decide +kernel⟩
  have hfield (s : CachedUidGenerator) (last : ℤ) (hle : last ≤ 9)
      (h : s.padded.map (·.executor.lastSecond) = some last) :
      BorrowsInField (toSeconds 0) fourSlots.epochSeconds A s := by
    intro p hp second hlo hhi
    rw [Option.mem_def.1 hp, Option.map_some, Option.some.injEq] at h
    rw [show fourSlots.epochSeconds = 0 from rfl, hmax]
    rw [show toSeconds 0 = 0 from rfl] at hlo
    omega
  have hrun : Run (Within Step (BorrowsInField (toSeconds 0) fourSlots.epochSeconds A)) g
      [.getUID (.ok 10), .getUID (.ok 11), .getUID (.ok 18)] (next (next (next g))) :=
    .cons ⟨hcall g 10 (by decide +kernel), hfield _ 3 (by decide) (by decide +kernel)⟩
      (.cons ⟨hcall (next g) 11 (by decide +kernel), hfield _ 3 (by decide) (by decide +kernel)⟩
        (.cons ⟨hcall (next (next g)) 18 (by decide +kernel),
          hfield _ 5 (by decide) (by decide +kernel)⟩ .nil))
  have hsize : g.padded.map (·.ringBuffer.bufferSize) = some 4 := by decide +kernel
  obtain ⟨-, clock, d, hcalls, hlen, -, -⟩ := agrees_with_default (Nat.zero_le _) (by decide) rfl rfl
    init_fourSlots hA (by simp) (hfield g 3 (by decide) (by decide +kernel)) hrun fun p hp => by
      rw [Option.mem_def.1 hp, Option.map_some, Option.some.injEq] at hsize
      rw [hsize]
      decide
  exact ⟨g, _, clock, d, init_fourSlots, hrun.mono fun _ _ _ h => h.1, hlen, hcalls⟩

end CachedUidGenerator

end UID
