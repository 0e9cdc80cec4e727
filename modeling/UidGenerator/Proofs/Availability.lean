import UidGenerator.Proofs.Serial

/-! A `DefaultUidGenerator` under a clock that does not step back: every call is answered, as
soon as the clock shows a second with a sequence left, and the UIDs returned are bounded by
the sequences of the seconds that have passed. -/

namespace UID.DefaultUidGenerator

open Transition

/-- The seconds never step back. The first may be the one before 1970, and the last one is in
the timestamp field. -/
structure Steady (g : DefaultUidGenerator) (A : BitsAllocator) (seconds : List ℤ) : Prop where
  ordered : seconds.Pairwise (· ≤ ·)
  inRange : ∀ second ∈ seconds, -1 ≤ second ∧ second - g.epochSeconds ≤ A.maxDeltaSeconds

def readSeconds (calls : List Call) : List ℤ := calls.flatMap (·.seconds)

def place (L : Layout) (g : DefaultUidGenerator) : ℤ := g.lastSecond * 2 ^ L.s + g.sequence

variable {L : Layout} {g₁ g g' : DefaultUidGenerator} {calls : List Call} {c : Call}

theorem readSeconds_snoc (calls : List Call) (c : Call) :
    readSeconds (calls ++ [c]) = readSeconds calls ++ c.seconds := by
  rw [readSeconds, List.flatMap_append, List.flatMap_singleton]
  rfl

theorem Steady.left {A : BitsAllocator} {seconds later : List ℤ}
    (h : Steady g A (seconds ++ later)) : Steady g A seconds :=
  ⟨(List.pairwise_append.1 h.ordered).1, fun second hs => h.inRange second (List.mem_append_left _ hs)⟩

/-- After a run under a steady clock: all calls are answered, the last second was read, and
there are no more calls than places from the first second on. -/
structure Answered (L : Layout) (g₁ : DefaultUidGenerator) (calls : List Call)
    (g : DefaultUidGenerator) : Prop extends Framed L g₁ g where
  outcomes : ∀ c ∈ calls, ∃ uid, c.outcome = .ok uid
  last : calls = [] ∧ g.lastSecond = -1 ∨ g.lastSecond ∈ readSeconds calls
  places : ∀ first, (∀ second ∈ readSeconds calls, first ≤ second) → calls ≠ [] →
    (calls.length : ℤ) ≤ place L g - first * 2 ^ L.s + 1

/-- No later reading lies before the last second. -/
theorem Answered.lastSecond_le (h : Answered L g₁ calls g) {A : BitsAllocator} {later : List ℤ}
    (hsteady : Steady g₁ A (readSeconds calls ++ later)) : ∀ second ∈ later, g.lastSecond ≤ second := by
  intro second hsecond
  rcases h.last with ⟨-, hstart⟩ | hread
  · rw [hstart]
    exact (hsteady.inRange second (List.mem_append_right _ hsecond)).1
  · exact (List.pairwise_append.1 hsteady.ordered).2.2 _ hread _ hsecond

theorem Answered.notPast (h : Answered L g₁ calls g) {later : List ℤ}
    (hsteady : Steady g₁ L.allocator (readSeconds calls ++ later)) {now : ℤ}
    (hnow : toSeconds now ∈ later) : ¬g.PastRange L.allocator now := by
  have hrange := (hsteady.inRange _ (List.mem_append_right _ hnow)).2
  have hepoch : g.epochSeconds = g₁.epochSeconds := by rw [h.frame]
  rw [PastRange, hepoch]
  omega

/-- A sequence that is not used up goes on by one. -/
theorem Framed.sequence_succ (h : Framed L g₁ g) (hne : and (g.sequence + 1) L.allocator.maxSequence ≠ 0) :
    and (g.sequence + 1) L.allocator.maxSequence = g.sequence + 1 := by
  have h0 := h.sequence_nonneg
  have hlt := h.sequence_lt
  have hfull : g.sequence ≠ L.allocator.maxSequence := fun heq => hne ((wraps_iff h0 hlt).2 heq)
  rw [show L.allocator.maxSequence = 2 ^ L.s - 1 from rfl] at hfull
  rw [and_maxSequence, Int.emod_eq_of_lt (by omega) (by omega)]

/-- Every call goes on by a place at least. -/
theorem Answered.call (h : Answered L g₁ calls g) (hA : g₁.bitsAllocator = some L.allocator)
    (hsteady : Steady g₁ L.allocator (readSeconds (calls ++ [c]))) (hstep : CallStep g c g') :
    Answered L g₁ (calls ++ [c]) g' := by
  have hframed := h.toFramed.call hA hstep
  rw [readSeconds_snoc] at hsteady
  have hread : ∀ now ∈ c.readings, toSeconds now ∈ c.seconds := fun now => List.mem_map_of_mem
  cases call_cases (h.toFramed.bitsAllocator hA) hstep with
  | refused now e hreadings hrefusal _ =>
    have hnow := hread now (by rw [hreadings]; simp)
    have hle := h.lastSecond_le hsteady _ hnow
    exact absurd hrefusal (not_or.2 ⟨h.notPast hsteady hnow, by omega⟩)
  | exhausted now waited last hreadings _ _ hpast _ =>
    exact absurd hpast (h.notPast hsteady (hread last (by rw [hreadings]; simp)))
  | issued second sequence hsecond _ _ hnext hout =>
    have hpos : (0 : ℤ) < 2 ^ L.s := by positivity
    have hlater : place L g + 1 ≤ second * 2 ^ L.s + sequence := by
      have hlt := h.sequence_lt
      rw [place]
      rcases hnext with ⟨hnew, rfl⟩ | ⟨rfl, hne, rfl⟩
      · have hmul := mul_le_mul_of_nonneg_right (Int.add_one_le_of_lt hnew) hpos.le
        rw [add_mul, one_mul] at hmul
        omega
      · rw [h.toFramed.sequence_succ hne]
        omega
    refine ⟨hframed, ?_, Or.inr ?_, fun first hfirst _ => ?_⟩
    · intro d hd
      rcases List.mem_append.1 hd with hd | hd
      · exact h.outcomes d hd
      · rw [List.mem_singleton.1 hd]
        exact ⟨_, hout⟩
    · rw [readSeconds_snoc]
      exact List.mem_append_right _ hsecond
    · rw [readSeconds_snoc] at hfirst
      rw [List.length_append, List.length_singleton]
      change _ ≤ second * 2 ^ L.s + sequence - first * 2 ^ L.s + 1
      push_cast
      by_cases hnil : calls = []
      · have hmul := mul_le_mul_of_nonneg_right (hfirst second (List.mem_append_right _ hsecond)) hpos.le
        have h0 : 0 ≤ sequence := hframed.sequence_nonneg
        rw [hnil, List.length_nil, Nat.cast_zero]
        omega
      · have hplaces := h.places first (fun s hs => hfirst s (List.mem_append_left _ hs)) hnil
        omega

/-- Every run under a steady clock is answered. -/
theorem answered_run (hA : g₁.bitsAllocator = some L.allocator) (hseq : g₁.sequence = 0)
    (hlast : g₁.lastSecond = -1) (hrun : Calls g₁ calls g)
    (hsteady : Steady g₁ L.allocator (readSeconds calls)) : Answered L g₁ calls g := by
  induction hrun with
  | nil =>
    exact ⟨⟨rfl, hseq.ge, hseq.trans_lt (by positivity)⟩, nofun, Or.inl ⟨rfl, hlast⟩,
      fun _ _ hne => absurd rfl hne⟩
  | @snoc calls g g' c hrun hstep ih =>
    have hbefore := hsteady
    rw [readSeconds_snoc] at hbefore
    exact (ih hbefore.left).call hA hsteady hstep

/-- The wait ends with the first reading of a later second. -/
theorem getNextSecond_of_later {A : BitsAllocator} {lastTimestamp : ℤ} {clock : List ℤ}
    (hrange : ∀ now ∈ clock, ¬g.PastRange A now) (hlater : ∃ now ∈ clock, lastTimestamp < toSeconds now) :
    ∃ waited now rest, clock = waited ++ now :: rest ∧ (∀ r ∈ waited, toSeconds r ≤ lastTimestamp) ∧
      g.getNextSecond A lastTimestamp clock = some (.ok (toSeconds now), rest) := by
  induction clock with
  | nil => simp at hlater
  | cons now clock ih =>
    rw [getNextSecond, getCurrentSecond_inRange (hrange now List.mem_cons_self)]
    by_cases hle : toSeconds now ≤ lastTimestamp
    · obtain ⟨r, hr, hlt⟩ := hlater
      have hmem : r ∈ clock := by
        rcases List.mem_cons.1 hr with rfl | hr
        · exact absurd hlt hle.not_gt
        · exact hr
      obtain ⟨waited, found, rest, rfl, hwaited, hnext⟩ :=
        ih (fun n hn => hrange n (List.mem_cons_of_mem _ hn)) ⟨r, hmem, hlt⟩
      refine ⟨now :: waited, found, rest, rfl, ?_, by simp only [if_pos hle, hnext]⟩
      intro n hn
      rcases List.mem_cons.1 hn with rfl | hn
      · exact hle
      · exact hwaited n hn
    · exact ⟨[], now, clock, rfl, List.forall_mem_nil _, by simp only [if_neg hle]⟩

/-- A call that meets a later second is answered there at the latest. -/
theorem Answered.getUID (h : Answered L g₁ calls g) (hA : g₁.bitsAllocator = some L.allocator)
    {clock : List ℤ} (hsteady : Steady g₁ L.allocator (readSeconds calls ++ clock.map toSeconds))
    (hlater : ∃ now ∈ clock, g.lastSecond < toSeconds now) :
    ∃ uid g' read rest, clock = read ++ rest ∧ g.getUID clock = some (.ok uid, g', rest) ∧
      ∀ now ∈ read.dropLast, toSeconds now ≤ g.lastSecond := by
  have hrange : ∀ now ∈ clock, ¬g.PastRange L.allocator now :=
    fun now hnow => h.notPast hsteady (List.mem_map_of_mem hnow)
  cases clock with
  | nil => simp at hlater
  | cons now clock =>
    have hle := h.lastSecond_le hsteady (toSeconds now) (List.mem_map_of_mem List.mem_cons_self)
    have hback : ¬toSeconds now < g.lastSecond := by omega
    have hcurrent := getCurrentSecond_inRange (hrange now List.mem_cons_self)
    have hone : ∀ n ∈ [now].dropLast, toSeconds n ≤ g.lastSecond := List.forall_mem_nil _
    have hnextId : g.nextId (now :: clock) = g.nextIdAt L.allocator now clock := by
      simp only [nextId, h.toFramed.bitsAllocator hA]
    simp only [DefaultUidGenerator.getUID, hnextId, nextIdAt, hcurrent, if_neg hback]
    by_cases hsame : toSeconds now = g.lastSecond
    · simp only [if_pos hsame]
      by_cases hwrap : and (g.sequence + 1) L.allocator.maxSequence = 0
      · have hwait : ∃ r ∈ clock, g.lastSecond < toSeconds r := by
          obtain ⟨r, hr, hlt⟩ := hlater
          rcases List.mem_cons.1 hr with rfl | hr
          · exact absurd hsame hlt.ne'
          · exact ⟨r, hr, hlt⟩
        obtain ⟨waited, found, rest, rfl, hwaited, hnext⟩ :=
          getNextSecond_of_later (g := { g with sequence := 0 })
            (fun n hn => hrange n (List.mem_cons_of_mem _ hn)) hwait
        simp only [hwrap, if_true, hnext]
        refine ⟨_, _, now :: waited ++ [found], rest, by simp, rfl, ?_⟩
        rw [List.dropLast_concat]
        intro n hn
        rcases List.mem_cons.1 hn with rfl | hn
        · exact hsame.le
        · exact hwaited n hn
      · simp only [if_neg hwrap]
        exact ⟨_, _, [now], clock, rfl, rfl, hone⟩
    · simp only [if_neg hsame]
      exact ⟨_, _, [now], clock, rfl, rfl, hone⟩

/-- Under a clock that never steps back and stays in the timestamp field, every call returns
a UID; in the seconds from `first` to `last` there are no more calls than these seconds have
sequences; and the next call returns with its first reading of a later second at the
latest. -/
theorem available {settings : Settings} {workerId : ℤ} {A : BitsAllocator}
    (hinit : (configured settings).afterPropertiesSet (.ok workerId) = (.ok (), g₁))
    (hA : g₁.bitsAllocator = some A) (hrun : Calls g₁ calls g)
    (hsteady : Steady g₁ A (readSeconds calls)) :
    (∀ c ∈ calls, ∃ uid, c.outcome = .ok uid) ∧
      (∀ first last, (∀ second ∈ readSeconds calls, first ≤ second ∧ second ≤ last) → calls ≠ [] →
        (calls.length : ℤ) ≤ 2 ^ settings.seqBits.toNat * (last - first + 1)) ∧
      ∀ clock, Steady g₁ A (readSeconds calls ++ clock.map toSeconds) →
        (∃ now ∈ clock, g.lastSecond < toSeconds now) →
        ∃ uid g' read rest, clock = read ++ rest ∧ g.getUID clock = some (.ok uid, g', rest) ∧
          ∀ now ∈ read.dropLast, toSeconds now ≤ g.lastSecond := by
  obtain ⟨L, hready⟩ := ready_of_init hinit
  obtain rfl : A = L.allocator := Option.some.inj (hA.symm.trans hready.bitsAllocator)
  have hanswered := answered_run hA hready.sequence hready.lastSecond hrun hsteady
  refine ⟨hanswered.outcomes, fun first last hbounds hne => ?_, fun clock => hanswered.getUID hA⟩
  have hplaces := hanswered.places first (fun second hs => (hbounds second hs).1) hne
  have hread : g.lastSecond ∈ readSeconds calls :=
    hanswered.last.resolve_left fun hnil => hne hnil.1
  have hmul := mul_le_mul_of_nonneg_right (hbounds _ hread).2 (show (0 : ℤ) ≤ 2 ^ L.s by positivity)
  have hlt := hanswered.sequence_lt
  rw [hready.seqBits, Int.toNat_natCast]
  calc (calls.length : ℤ) ≤ place L g - first * 2 ^ L.s + 1 := hplaces
    _ ≤ last * 2 ^ L.s + 2 ^ L.s - first * 2 ^ L.s := by
      rw [place]
      omega
    _ = 2 ^ L.s * (last - first + 1) := by ring

/-- Three calls within two seconds of two sequences each, and a fourth one. -/
theorem available_waits :
    ∃ (g₁ g g' : DefaultUidGenerator) (calls : List Call) (uid : ℤ),
      (configured oneBitSequences).afterPropertiesSet (.ok 1) = (.ok (), g₁) ∧ Calls g₁ calls g ∧
      (calls.length : ℤ) ≤ 2 ^ 1 * (11 - 10 + 1) ∧ (∀ c ∈ calls, ∃ uid, c.outcome = .ok uid) ∧
      ∃ rest, g.getUID [11500, 12000] = some (.ok uid, g', rest) := by
  let calls : List Call := [⟨[10000], .ok 42949672962⟩, ⟨[10999], .ok 42949672963⟩,
    ⟨[10000, 10500, 11000], .ok 47244640258⟩]
  let g₁ := ((configured oneBitSequences).afterPropertiesSet (.ok 1)).2
  have hinit : (configured oneBitSequences).afterPropertiesSet (.ok 1) = (.ok (), g₁) := rfl
  have hrun : Calls g₁ calls _ := .cons rfl (.cons rfl (.cons rfl .nil))
  obtain ⟨houtcomes, hlength, hnext⟩ := available hinit rfl hrun ⟨by decide, by decide⟩
  obtain ⟨uid, g', -, rest, -, hget, -⟩ :=
    hnext [11500, 12000] ⟨by decide, by decide⟩ ⟨12000, by simp, by decide⟩
  exact ⟨g₁, _, g', calls, uid, hinit, hrun, hlength 10 11 (by decide) (List.cons_ne_nil _ _), houtcomes,
    rest, hget⟩

end UID.DefaultUidGenerator
